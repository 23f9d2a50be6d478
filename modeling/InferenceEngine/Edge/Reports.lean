import InferenceEngine.Edge.Generators
import InferenceEngine.Inference.StreamCut

/-!
# Edge.Reports

What a client is told about the end of its generation: the streamed responses and the two that
collect the stream first (`chat_completions` in `api/openai_router.py`, `messages` in
`api/anthropic_router.py`), over the streams of a backend that may be unloaded at any time.

`_finish_reason` and `_stop_reason` know the two complete finish reasons and map every other one to
their default, the normal finish. `_stream` of the gRPC edge hands the finish reason on.

* `honest_iff_script`: on one edge and for one stream, when the client is told of a normal finish
  only if the generation has come to its own end.
* `honest_iff`: the same over every run of the backend.
-/

namespace InferenceEngine
namespace Edge

open Effect Prog Lts

inductive Completion where
  | chatCompletion (content finishReason : String) (promptTokens completionTokens totalTokens : Int)
  | message (text stopReason : String) (inputTokens outputTokens : Int)
  deriving DecidableEq, Repr

/-- `collect` -/
def collect (s : Script) : EdgeProg GenerationResult := do
  let _ ← asyncFor (fun _ _ => pure ()) s.fin 0 s.tokens
  let result ← result
  match result with
  | some r => pure r
  | none => raise (.other "")

/-- A handler that collects the stream before it answers. -/
def collectedResponse (answer : GenerationResult → Completion) (s : Script) :
    EdgeProg Completion := do
  start
  let r ← (collect s).attempt
  match r with
  | .ok result => do
    let _ ← finishGeneration none
    pure (answer result)
  | .error e => do
    close (some e)
    raise e

/-- `chat_completions` without `stream` -/
def chatCompletion : Script → EdgeProg Completion :=
  collectedResponse fun r => .chatCompletion r.text (finishReason r.finishReason) r.promptTokens
    r.completionTokens (r.promptTokens + r.completionTokens)

/-- `messages` without `stream` -/
def message : Script → EdgeProg Completion :=
  collectedResponse fun r =>
    .message r.text (stopReason r.finishReason) r.promptTokens r.completionTokens

inductive Serving where
  | streamed (d : Dialect)
  | chatCompletion
  | message
  deriving DecidableEq, Repr

/-- One request, streamed or not; the value is the body of a response that is not streamed. -/
def serve : Serving → Script → EdgeProg (Option Completion)
  | .streamed d, s => do
    request d s
    pure none
  | .chatCompletion, s => do
    let c ← chatCompletion s
    pure (some c)
  | .message, s => do
    let c ← message s
    pure (some c)

/-- Does the frame tell of a normal finish? -/
def Frame.normal : Frame → Bool
  | .openai (.chunk _ _ (some finish)) => finish == "stop"
  | .anthropic (.messageDelta reason _) => reason == "end_turn"
  | .grpc (.done reason _ _) => reason == "stop"
  | _ => false

def Completion.normal : Completion → Bool
  | .chatCompletion _ finish _ _ _ => finish == "stop"
  | .message _ reason _ _ => reason == "end_turn"

def Op.normal : Op → Bool
  | .yield f => f.normal
  | _ => false

/-- The client is told of a normal finish. -/
def Presents (v : Serving) (s : Script) (env : EdgeEnv) : Prop :=
  (∃ ev ∈ ((serve v s).run env []).1, ev.1.normal = true) ∨
    ∃ c, ((serve v s).run env []).2 = .ok (some c) ∧ c.normal = true

/-- `stream.result` is `res`, and `finish_generation` returns it. -/
def Tells (res : Option GenerationResult) : EdgeEvent → Prop
  | ⟨.result, .ok x⟩ => x = res
  | ⟨.finish _, .ok x⟩ => x = res
  | _ => True

/-- Whatever the transport does, a normal finish is told only of a generation that has stopped by
itself. -/
def Honest (v : Serving) (s : Script) (res : Option GenerationResult) : Prop :=
  ∀ env : EdgeEnv, (∀ past op, Tells res ⟨op, env past op⟩) → Presents v s env →
    ∃ r, res = some r ∧ r.finishReason = .stop

/-! ## A normal finish is deserved -/

section Safe

variable {r : GenerationResult}

/-- The operation tells of a normal finish only if the generation has stopped by itself. -/
def Deserved (r : GenerationResult) (op : Op) : Prop := op.normal = true → r.finishReason = .stop

/-- However `p` is left, it tells of a normal finish only if that is deserved, and what it returns
satisfies `R`. -/
abbrev Truthful {α : Type} (r : GenerationResult) (p : EdgeProg α) (R : α → Prop := fun _ => True) :
    Prop := p.Safe (Tells (some r)) (Deserved r) R

theorem finishReason_stop {reason : FinishReason} (h : reason.complete = true)
    (hstop : finishReason reason = "stop") : reason = .stop := by
  cases reason with
  | stop => rfl
  | length => simp [finishReason] at hstop
  | cancelled => cases h
  | error => cases h

theorem stopReason_stop {reason : FinishReason} (h : reason.complete = true)
    (hstop : stopReason reason = "end_turn") : reason = .stop := by
  cases reason with
  | stop => rfl
  | length => simp [stopReason] at hstop
  | cancelled => cases h
  | error => cases h

theorem value_stop {reason : FinishReason} (h : reason.value = "stop") : reason = .stop := by
  cases reason with
  | stop => rfl
  | _ => simp [FinishReason.value] at h

theorem safe_quiet (op : Op) (hop : op.normal = false) :
    Truthful r (call op : EdgeProg op.Res) := by
  refine safe_call ?_ fun _ _ => trivial
  intro h
  rw [hop] at h
  cases h

theorem safe_yield {f : Frame} (h : f.normal = true → r.finishReason = .stop) :
    Truthful r (yield f) := safe_call h fun _ _ => trivial

theorem safe_result : Truthful r result (fun x => x = some r) := by
  refine safe_call ?_ fun _ h => h
  intro h
  cases h

theorem safe_finishGeneration (error : Option Exc) :
    Truthful r (finishGeneration error) (fun x => x = some r) := by
  refine safe_call ?_ fun _ h => h
  intro h
  cases h

/-- The loop is left at its end only if the stream has not failed. -/
theorem safe_asyncFor {body : Nat → String → EdgeProg Unit} {fin : Option Exc}
    (hbody : ∀ n text, Truthful r (body n text)) (tokens : List String) (n : Nat) :
    Truthful r (asyncFor body fin n tokens) (fun _ => fin = none) := by
  induction tokens generalizing n with
  | nil =>
    refine (safe_quiet .anext rfl).bind fun _ _ => ?_
    cases fin with
    | none => exact rfl
    | some e => trivial
  | cons text rest ih =>
    refine (safe_quiet .anext rfl).bind fun _ _ => ?_
    exact (hbody _ _).bind fun _ _ => ih _

theorem safe_feed (n : Nat) : Truthful r (feed n) := by
  refine (safe_quiet .intervalPassed rfl).bind fun passed _ => ?_
  cases passed with
  | true => exact safe_quiet _ rfl
  | false => trivial

theorem safe_close (error : Option Exc) : Truthful r (close error) :=
  (safe_quiet .aclose rfl).tryFinally (safe_quiet _ rfl)

theorem safe_sse {body handler : EdgeProg Unit} (hbody : Truthful r body)
    (hhandler : Truthful r handler) : Truthful r (sse body handler) := by
  refine hbody.attempt.bind fun res _ => ?_
  cases res with
  | ok _ => exact safe_close none
  | error e =>
    simp only
    split
    · exact hhandler.tryFinally (safe_close _)
    · exact (safe_raise e).tryFinally (safe_close _)

theorem safe_openaiSse {s : Script} (h : s.fin = none → r.finishReason.complete = true) :
    Truthful r (openaiSse s) := by
  refine safe_sse ?_ ?_
  · refine (safe_yield (by simp [Frame.normal])).bind fun _ _ => ?_
    refine (safe_asyncFor (fun n text => ?_) _ _).bind fun _ hfin => ?_
    · exact (safe_yield (by simp [Frame.normal])).bind fun _ _ => safe_feed n
    · refine safe_result.bind fun res hres => ?_
      subst hres
      refine (safe_yield fun hn => finishReason_stop (h hfin) ?_).bind fun _ _ => ?_
      · simpa [Frame.normal] using hn
      · exact safe_yield (by simp [Frame.normal])
  · exact (safe_yield (by simp [Frame.normal])).bind fun _ _ => safe_yield (by simp [Frame.normal])

theorem safe_anthropicSse {s : Script} (h : s.fin = none → r.finishReason.complete = true) :
    Truthful r (anthropicSse s) := by
  refine safe_sse ?_ (safe_yield (by simp [Frame.normal]))
  refine (safe_yield (by simp [Frame.normal])).bind fun _ _ => ?_
  refine (safe_yield (by simp [Frame.normal])).bind fun _ _ => ?_
  refine (safe_yield (by simp [Frame.normal])).bind fun _ _ => ?_
  refine (safe_asyncFor (fun n text => ?_) _ _).bind fun _ hfin => ?_
  · exact (safe_yield (by simp [Frame.normal])).bind fun _ _ => safe_feed n
  · refine safe_result.bind fun res hres => ?_
    subst hres
    refine (safe_yield (by simp [Frame.normal])).bind fun _ _ => ?_
    refine (safe_yield fun hn => stopReason_stop (h hfin) ?_).bind fun _ _ => ?_
    · simpa [Frame.normal] using hn
    · exact safe_yield (by simp [Frame.normal])

theorem safe_streamingResponse {g : EdgeProg Unit} (hg : Truthful r g) :
    Truthful r (streamingResponse g) := by
  refine (safe_quiet .start rfl).bind fun _ _ => ?_
  refine (safe_quiet .opened rfl).bind fun pulled _ => ?_
  cases pulled with
  | true => exact hg
  | false => trivial

theorem safe_drainAndFinish (error : Option Exc) :
    Truthful r (drainAndFinish error) (fun x => x = some r) := by
  refine (safe_quiet .aclose rfl).attempt.bind fun res _ => ?_
  cases res with
  | ok _ => exact safe_finishGeneration error
  | error e =>
    simp only
    split
    · exact safe_finishGeneration error
    · refine (safe_finishGeneration error).attempt.bind fun f _ => ?_
      cases f with
      | ok _ => trivial
      | error e' =>
        simp only
        split <;> trivial

theorem safe_streamEnd (error : Option Exc) : Truthful r (streamEnd error) := by
  refine (safe_drainAndFinish error).bind fun res hres => ?_
  subst hres
  have hdone (n m : Int) : Truthful r (yield (.grpc (.done r.finishReason.value n m))) := by
    refine safe_yield fun hn => value_stop ?_
    simpa [Frame.normal] using hn
  simp only
  split
  · exact (safe_quiet .abort rfl).bind fun _ _ => hdone _ _
  · exact hdone _ _

theorem safe_stream (s : Script) : Truthful r (stream s) := by
  have hloop : Truthful r (asyncFor (fun _ text => yield (.grpc (.text text))) s.fin 0 s.tokens)
      (fun _ => s.fin = none) :=
    safe_asyncFor (fun _ _ => safe_yield (by simp [Frame.normal])) _ _
  refine hloop.attempt.bind fun res _ => ?_
  split
  · exact safe_streamEnd none
  · exact safe_streamEnd _
  · exact (safe_drainAndFinish none).bind fun _ _ => trivial

theorem safe_startStream (s : Script) : Truthful r (startStream s) := by
  refine (safe_quiet .start rfl).attempt.bind fun res _ => ?_
  split
  · exact safe_stream s
  · exact safe_quiet .abort rfl
  · exact safe_quiet .abort rfl
  · exact safe_quiet .abort rfl
  · exact safe_quiet .abort rfl
  · trivial

theorem safe_closeGenerator {rest : Exc → EdgeProg Unit} (h : ∀ e, Truthful r (rest e)) :
    Truthful r (closeGenerator rest) := by
  refine (h _).attempt.bind fun res _ => ?_
  split <;> trivial

theorem safe_handlersClose {suspended : Option (Exc → EdgeProg Unit)}
    (h : ∀ rest, suspended = some rest → ∀ e, Truthful r (rest e)) :
    Truthful r (handlersClose suspended) := by
  refine (safe_quiet .lock rfl).attempt.bind fun res _ => ?_
  split
  · trivial
  · exact safe_closeGenerator (h _ rfl)
  · trivial
  · refine (safe_quiet .closeAll rfl).attempt.bind fun _ _ => ?_
    exact (safe_closeGenerator (h _ rfl)).attempt.bind fun _ _ => trivial

theorem safe_generate (s : Script) : Truthful r (generate s) := by
  have hinner : Truthful r (do
      if !s.knownModel then
        abort
      startStream s) := by
    cases s.knownModel with
    | true => exact safe_startStream s
    | false => exact (safe_quiet .abort rfl).bind fun _ _ => safe_startStream s
  have hraised : ∀ op e, Tells (some r) ⟨op, .error e⟩ := by
    intro op e
    cases op <;> trivial
  refine (hinner.relay fun op e _ => hraised op e).bind fun res hres => ?_
  cases res with
  | ended res => exact (safe_ofExcept hres).tryFinally (safe_handlersClose fun _ h => by cases h)
  | thrown e rest =>
    refine (safe_raise e).tryFinally (safe_handlersClose fun rest' h => ?_)
    cases h
    exact hres

theorem safe_request {d : Dialect} {s : Script}
    (h : d ≠ .grpc → s.fin = none → r.finishReason.complete = true) : Truthful r (request d s) := by
  cases d with
  | openai => exact safe_streamingResponse (safe_openaiSse (h (by simp)))
  | anthropic => exact safe_streamingResponse (safe_anthropicSse (h (by simp)))
  | grpc => exact safe_generate s

theorem safe_collect (s : Script) : Truthful r (collect s) (fun x => x = r ∧ s.fin = none) := by
  have hbody : Truthful r (pure () : EdgeProg Unit) := trivial
  refine (safe_asyncFor (fun _ _ => hbody) _ _).bind fun _ hfin => ?_
  refine safe_result.bind fun res hres => ?_
  subst hres
  exact ⟨rfl, hfin⟩

theorem safe_collectedResponse (answer : GenerationResult → Completion) (s : Script) :
    Truthful r (collectedResponse answer s) (fun c => c = answer r ∧ s.fin = none) := by
  refine (safe_quiet .start rfl).bind fun _ _ => ?_
  refine (safe_collect s).attempt.bind fun res hres => ?_
  cases res with
  | ok x =>
    obtain ⟨rfl, hfin⟩ := hres x rfl
    exact (safe_finishGeneration none).bind fun _ _ => ⟨rfl, hfin⟩
  | error e => exact (safe_close _).bind fun _ _ => trivial

end Safe

/-! ## A normal finish is told -/

/-- The client reads to the end, and nothing fails. -/
def undisturbed (r : GenerationResult) : EdgeEnv := fun _ op =>
  match op with
  | .opened => .ok true
  | .intervalPassed => .ok false
  | .result | .finish _ => .ok (some r)
  | .start | .yield _ | .anext | .progress _ | .aclose | .abort | .lock | .closeAll => .ok ()

section Undisturbed

variable {r : GenerationResult}

theorem undisturbed_tells (past : List EdgeEvent) (op : Op) :
    Tells (some r) ⟨op, undisturbed r past op⟩ := by
  cases op <;> trivial

theorem returns_yield (f : Frame) : (yield f).Returns (undisturbed r) () :=
  returns_call fun _ => rfl

theorem returns_feed (n : Nat) : (feed n).Returns (undisturbed r) () := by
  refine Returns.bind (returns_call fun _ => rfl) ?_
  exact fun _ => rfl

theorem returns_asyncFor {body : Nat → String → EdgeProg Unit}
    (hbody : ∀ n text, (body n text).Returns (undisturbed r) ()) (tokens : List String) (n : Nat) :
    (asyncFor body none n tokens).Returns (undisturbed r) (n + tokens.length) := by
  induction tokens generalizing n with
  | nil =>
    refine Returns.bind (returns_call fun _ => rfl) ?_
    exact fun _ => rfl
  | cons text rest ih =>
    refine Returns.bind (returns_call fun _ => rfl) ((hbody _ _).bind ?_)
    have := ih (n + 1)
    rwa [Nat.add_assoc, Nat.add_comm 1] at this

theorem openaiSse_performs {s : Script} (h : s.fin = none) :
    (openaiSse s).Performs (undisturbed r)
      (.yield (.openai (.chunk none none (some (finishReason r.finishReason))))) := by
  refine Performs.bind (Performs.attempt ?_)
  refine (returns_yield _).performs_bind ?_
  rw [h]
  refine (returns_asyncFor (fun n text => ?_) _ _).performs_bind ?_
  · exact (returns_yield _).bind (returns_feed n)
  · refine Returns.performs_bind (returns_call fun _ => rfl) ?_
    exact performs_call.bind

theorem anthropicSse_performs {s : Script} (h : s.fin = none) :
    (anthropicSse s).Performs (undisturbed r)
      (.yield (.anthropic (.messageDelta (stopReason r.finishReason) r.completionTokens))) := by
  refine Performs.bind (Performs.attempt ?_)
  refine (returns_yield _).performs_bind ((returns_yield _).performs_bind ?_)
  refine (returns_yield _).performs_bind ?_
  rw [h]
  refine (returns_asyncFor (fun n text => ?_) _ _).performs_bind ?_
  · exact (returns_yield _).bind (returns_feed n)
  · refine Returns.performs_bind (returns_call fun _ => rfl) ?_
    exact (returns_yield _).performs_bind performs_call.bind

theorem streamingResponse_performs {g : EdgeProg Unit} {op : Op}
    (h : g.Performs (undisturbed r) op) : (streamingResponse g).Performs (undisturbed r) op := by
  refine Returns.performs_bind (returns_call fun _ => rfl) ?_
  exact Returns.performs_bind (returns_call fun _ => rfl) h

theorem returns_collectedResponse (answer : GenerationResult → Completion) {s : Script}
    (h : s.fin = none) : (collectedResponse answer s).Returns (undisturbed r) (answer r) := by
  have hcollect : (collect s).Returns (undisturbed r) r := by
    unfold collect
    rw [h]
    refine (returns_asyncFor (fun _ _ _ => rfl) _ _).bind ?_
    refine Returns.bind (returns_call fun _ => rfl) ?_
    exact fun _ => rfl
  refine Returns.bind (returns_call fun _ => rfl) (hcollect.attempt.bind ?_)
  refine Returns.bind (returns_call fun _ => rfl) ?_
  exact fun _ => rfl

/-- The default of `_finish_reason` is the normal finish. -/
theorem finishReason_incomplete {reason : FinishReason} (h : reason.complete = false) :
    finishReason reason = "stop" := by
  cases reason <;> first | rfl | cases h

theorem stopReason_incomplete {reason : FinishReason} (h : reason.complete = false) :
    stopReason reason = "end_turn" := by
  cases reason <;> first | rfl | cases h

theorem presents_performed {d : Dialect} {s : Script} {op : Op}
    (h : (request d s).Performs (undisturbed r) op) (hop : op.normal = true) :
    Presents (.streamed d) s (undisturbed r) := by
  obtain ⟨ev, hev, rfl⟩ := h.bind (f := fun _ => (pure none : EdgeProg (Option Completion))) []
  exact .inl ⟨ev, hev, hop⟩

/-- A generation that was cut off is presented as complete by every edge but the gRPC one. -/
theorem presents_incomplete {v : Serving} {s : Script} (hv : v ≠ .streamed .grpc)
    (hfin : s.fin = none) (hr : r.finishReason.complete = false) :
    Presents v s (undisturbed r) := by
  cases v with
  | streamed d =>
    cases d with
    | openai =>
      refine presents_performed (streamingResponse_performs (openaiSse_performs hfin)) ?_
      simp [Op.normal, Frame.normal, finishReason_incomplete hr]
    | anthropic =>
      refine presents_performed (streamingResponse_performs (anthropicSse_performs hfin)) ?_
      simp [Op.normal, Frame.normal, stopReason_incomplete hr]
    | grpc => exact absurd rfl hv
  | chatCompletion =>
    refine .inr ⟨_, (returns_collectedResponse _ hfin).bind (fun _ => rfl) [], ?_⟩
    simp [Completion.normal, finishReason_incomplete hr]
  | message =>
    refine .inr ⟨_, (returns_collectedResponse _ hfin).bind (fun _ => rfl) [], ?_⟩
    simp [Completion.normal, stopReason_incomplete hr]

end Undisturbed

theorem safe_serve {v : Serving} {s : Script} {r : GenerationResult}
    (h : v ≠ .streamed .grpc → s.fin = none → r.finishReason.complete = true) :
    Truthful r (serve v s) (fun x => ∀ c, x = some c → c.normal = true →
      r.finishReason = .stop) := by
  cases v with
  | streamed d =>
    refine (safe_request fun hd => h (by simpa using hd)).bind fun _ _ => ?_
    intro c hc
    cases hc
  | chatCompletion =>
    refine (safe_collectedResponse _ s).bind fun c hc => ?_
    obtain ⟨rfl, hfin⟩ := hc
    intro c hc hn
    cases hc
    exact finishReason_stop (h (by simp) hfin) (by simpa [Completion.normal] using hn)
  | message =>
    refine (safe_collectedResponse _ s).bind fun c hc => ?_
    obtain ⟨rfl, hfin⟩ := hc
    intro c hc hn
    cases hc
    exact stopReason_stop (h (by simp) hfin) (by simpa [Completion.normal] using hn)

theorem honest_iff_script (v : Serving) (s : Script) (r : GenerationResult) :
    Honest v s (some r) ↔
      v = .streamed .grpc ∨ s.fin.isSome = true ∨ r.finishReason.complete = true := by
  constructor
  · intro hhonest
    by_contra hnot
    rw [not_or, not_or, Bool.not_eq_true, Bool.not_eq_true, Option.isSome_eq_false_iff,
      Option.isNone_iff_eq_none] at hnot
    obtain ⟨hv, hfin, hr⟩ := hnot
    obtain ⟨r', hr', hstop⟩ :=
      hhonest _ undisturbed_tells (presents_incomplete hv hfin hr)
    cases hr'
    rw [hstop] at hr
    cases hr
  · intro hcond env henv hpresents
    have hsafe := safe_serve (v := v) (s := s) (r := r) fun hv hfin => by
      simpa [hv, hfin] using hcond
    obtain ⟨hevents, hvalue⟩ := hsafe.run henv []
    refine ⟨r, rfl, ?_⟩
    rcases hpresents with ⟨ev, hev, hn⟩ | ⟨c, hc, hn⟩
    · exact hevents ev hev hn
    · exact hvalue _ hc c rfl hn

/-- What the edge gets from a stream whose consumer was told its end: the tokens, and the
`GenerationFailedError` with the text of the worker's error. -/
def scriptOf (s : Stream) (error : Option Exc) (str : Exc → String) : Script where
  tokens := s.received.map (·.text)
  fin := error.map fun e => .generationFailed (str e)
  promptTokens := s.promptTokens
  knownModel := true

/-- **A client is told the truth exactly when its generation was not cut off.** In every run of the
backend, for every stream that has ended for its consumer: on the edge that serves it, streamed or
not, and whatever the transport does, a normal finish is told only if the generation's finish reason
is `stop`, if and only if the edge is the gRPC one, or the consumer was told an error, or no event
of the run has cut the stream. -/
theorem honest_iff (v : Serving) (str : Exc → String) {i : Nat} {s : Stream} {err : Option Exc}
    {ls : List ThreadedBackend.Ev} {b : ThreadedBackend}
    (h : Run ThreadedBackend.step .init ls b) (hs : b.streams[i]? = some s)
    (hc : s.consumer = .ended err) :
    Honest v (scriptOf s err str) s.result ↔ v = .streamed .grpc ∨ err.isSome = true ∨
      Guarded ThreadedBackend.step (fun b ev => b.cuts i ev = false) .init ls := by
  obtain ⟨r, hr, hcomplete⟩ := ThreadedBackend.complete_iff h hs hc
  rw [hr, honest_iff_script]
  cases err with
  | some e => simp [scriptOf]
  | none => simp [scriptOf, hcomplete rfl]

/-- A generation of the tokens `tokens` is started on a backend that is ready. -/
def started (tokens : List String) : List ThreadedBackend.Ev :=
  [.load, .loadHook 0 true, .loadResume 0, .generate ⟨⟨tokens, .returned none, none⟩, some 3, true⟩]

/-- The model is unloaded when the worker has sent everything. -/
def unloadedLate : List ThreadedBackend.Ev :=
  started ["a"] ++ .replicate 12 (.stream 0 .work) ++ .replicate 2 (.stream 0 .callback) ++
    [.stream 0 .anext, .unload, .stream 0 .anext, .unloadClosed 0 false]

def unloadedLateEnd : ThreadedBackend :=
  (exec ThreadedBackend.step .init unloadedLate).get (by decide +kernel)

def unloadedLateStream : Stream := (unloadedLateEnd.streams[0]?).get (by decide +kernel)

theorem honest_unloadedLate :
    Run ThreadedBackend.step .init unloadedLate unloadedLateEnd ∧
      unloadedLateStream.consumer = .ended none ∧
      Honest .chatCompletion (scriptOf unloadedLateStream none fun _ => "")
        unloadedLateStream.result := by
  have hrun : Run ThreadedBackend.step .init unloadedLate unloadedLateEnd :=
    run_of_exec (by simp [unloadedLateEnd])
  have hs : unloadedLateEnd.streams[0]? = some unloadedLateStream := by simp [unloadedLateStream]
  have hc : unloadedLateStream.consumer = .ended none := by decide +kernel
  exact ⟨hrun, hc, (honest_iff _ _ hrun hs hc).mpr (.inr (.inr (by decide +kernel)))⟩

/-- The model is unloaded after the first of two tokens. -/
def unloadedMidway : List ThreadedBackend.Ev :=
  started ["a", "b"] ++ .replicate 6 (.stream 0 .work) ++
    [.stream 0 .callback, .stream 0 .anext, .unload] ++ .replicate 3 (.stream 0 .work) ++
    [.stream 0 .callback, .stream 0 .anext]

def unloadedMidwayEnd : ThreadedBackend :=
  (exec ThreadedBackend.step .init unloadedMidway).get (by decide +kernel)

def unloadedMidwayStream : Stream := (unloadedMidwayEnd.streams[0]?).get (by decide +kernel)

/-- Every HTTP response tells the client of a normal finish, and the finish reason is
`cancelled`. -/
theorem unloadedMidway_presented :
    Run ThreadedBackend.step .init unloadedMidway unloadedMidwayEnd ∧
      unloadedMidwayEnd.streams[0]? = some unloadedMidwayStream ∧
      unloadedMidwayStream.consumer = .ended none ∧
      unloadedMidwayStream.result = some ⟨"a", .cancelled, 3, 1⟩ ∧
      (∀ v, v ≠ .streamed .grpc → Presents v (scriptOf unloadedMidwayStream none fun _ => "")
        (undisturbed ⟨"a", .cancelled, 3, 1⟩)) ∧
      ¬ Honest (.streamed .openai) (scriptOf unloadedMidwayStream none fun _ => "")
        unloadedMidwayStream.result := by
  have hresult : unloadedMidwayStream.result = some ⟨"a", .cancelled, 3, 1⟩ := by decide +kernel
  refine ⟨run_of_exec (by simp [unloadedMidwayEnd]), by simp [unloadedMidwayStream],
    by decide +kernel, hresult, fun v hv => presents_incomplete hv rfl rfl, ?_⟩
  rw [hresult, honest_iff_script]
  decide

end Edge
end InferenceEngine
