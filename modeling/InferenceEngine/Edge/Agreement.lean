import InferenceEngine.Edge.Reports
import InferenceEngine.Inference.RemoteUsage
import InferenceEngine.Lib.JsonRoundTrip

/-!
# Edge.Agreement

The streamed and the collected answer of one edge, over the streams of both kinds of backend. A
stream of a local backend knows its prompt tokens before it delivers anything; one of a remote
backend learns them with the usage at the end of the reply, and says 0 until then.

* `Stream.run_told`, `RemoteStream.run_reported`: the result has the text of the tokens.
* `openaiSse_shows`, `anthropicSse_shows`: the frames of a response, one after the other.
* `streamed_agrees`: the two answers say the same, but for the input tokens of a remote stream.
-/

namespace InferenceEngine

open Lts Json Py

/-! ## The streams -/

def Consumer.hasEnded : Consumer → Bool
  | .ended _ => true
  | _ => false

namespace Stream

/-- The result is that of a close, or of all that the consumer has got. -/
structure Told (pt : Nat) (s : Stream) : Prop where
  promptTokens : s.promptTokens = pt
  received : s.received.map (·.text) = s.parts
  result : ∀ r, s.result = some r → r.finishReason = .cancelled ∨
    s.consumer.hasEnded = true ∧ r = s.resultWith r.finishReason

variable {pt : Nat} {s s' : Stream} {e : Ev}

theorem Told.of_same (hs : s.Told pt) (hpt : s'.promptTokens = s.promptTokens)
    (hreceived : s'.received = s.received) (hparts : s'.parts = s.parts)
      (hindex : s'.index = s.index) (hresult : s'.result = s.result)
      (hconsumer : s.consumer.hasEnded = true → s'.consumer.hasEnded = true) :
    s'.Told pt where
  promptTokens := by rw [hpt, hs.promptTokens]
  received := by rw [hreceived, hparts, hs.received]
  result := by
    intro r hr
    rw [hresult] at hr
    rcases hs.result r hr with hcancelled | ⟨hended, heq⟩
    · exact .inl hcancelled
    · refine .inr ⟨hconsumer hended, ?_⟩
      rw [heq]
      simp only [resultWith, hparts, hpt, hindex]

theorem fireOnDone_told (hs : s.Told pt) : s.fireOnDone.Told pt := by
  unfold fireOnDone
  split
  · exact hs
  · exact hs.of_same rfl rfl rfl rfl rfl id

theorem Told.cancelled (hs : s.Told pt) (hconsumer : s.consumer.hasEnded = false)
    {r : GenerationResult} (hr : s.result = some r) : r.finishReason = .cancelled := by
  rcases hs.result r hr with hcancelled | ⟨hended, -⟩
  · exact hcancelled
  · rw [hconsumer] at hended
    cases hended

theorem consume_told (hs : s.Told pt) (hconsumer : s.consumer.hasEnded = false) (item : Item)
    (rest : List Item) : (s.consume rest item).Told pt := by
  cases item with
  | token text =>
    refine ⟨hs.promptTokens, ?_, fun r hr => .inl (hs.cancelled hconsumer hr)⟩
    simp [consume, hs.received]
  | terminal t =>
    refine fireOnDone_told ⟨hs.promptTokens, hs.received, fun r hr => ?_⟩
    cases hresult : s.result with
    | some r' =>
      have hr : s.result = some r := by simpa [hresult] using hr
      exact .inl (hs.cancelled hconsumer hr)
    | none =>
      have hr : s.resultWith t.finish = r := by simpa [hresult, resultWith] using hr
      refine .inr ⟨rfl, ?_⟩
      rw [← hr]
      rfl

theorem step_told (hs : s.Told pt) (h : step s e = some s') : s'.Told pt := by
  cases e with
  | work =>
    obtain ⟨_, _, _, _, _, rfl⟩ := work_frame h
    exact hs.of_same rfl rfl rfl rfl rfl id
  | stopEarly e =>
    simp only [step] at h
    split at h <;> cases h
    exact hs.of_same rfl rfl rfl rfl rfl id
  | closeRaises e =>
    simp only [step] at h
    split at h <;> cases h
    exact hs.of_same rfl rfl rfl rfl rfl id
  | callback =>
    rcases runCallback_cases h with ⟨_, _, -, -, rfl⟩ | ⟨_, _, -, -, rfl⟩ | ⟨_, -, rfl⟩
    · exact hs.of_same rfl rfl rfl rfl rfl id
    · exact hs.of_same rfl rfl rfl rfl rfl id
    · exact fireOnDone_told (hs.of_same rfl rfl rfl rfl rfl id)
  | anext =>
    obtain ⟨hidle, ⟨-, rfl⟩ | ⟨item, rest, -, hq, rfl⟩ | ⟨-, -, rfl⟩⟩ := anext_cases h
    · exact hs.of_same rfl rfl rfl rfl rfl fun _ => rfl
    · exact consume_told hs (by rw [hidle]; rfl) item rest
    · refine hs.of_same rfl rfl rfl rfl rfl fun hended => ?_
      rw [hidle] at hended
      cases hended
  | getResume =>
    obtain ⟨hwaiting, item, rest, hq, rfl⟩ := getResume_cases h
    exact consume_told hs (by rw [hwaiting]; rfl) item rest
  | anextCancel =>
    simp only [step] at h
    split at h <;> cases h
    rename_i hwaiting
    refine hs.of_same rfl rfl rfl rfl rfl fun hended => ?_
    rw [hwaiting] at hended
    cases hended
  | aclose =>
    cases h
    unfold aclose
    split
    · exact hs
    · exact hs.of_same rfl rfl rfl rfl rfl id
  | acloseResume timedOut =>
    simp only [step, acloseResume] at h
    split at h <;> cases h
    refine fireOnDone_told ⟨hs.promptTokens, hs.received, fun r hr => ?_⟩
    cases hresult : s.result with
    | some r' =>
      have hr : s.result = some r := by simpa [hresult] using hr
      exact hs.result r hr
    | none =>
      have hr : s.resultWith .cancelled = r := by simpa [hresult, resultWith] using hr
      rw [← hr]
      exact .inl rfl
  | acloseCancel =>
    simp only [step] at h
    split at h <;> cases h
    exact hs.of_same rfl rfl rfl rfl rfl id

theorem init_told (p : Producer) (pt m : Nat) : (init p pt m).Told pt :=
  ⟨rfl, rfl, fun r hr => by cases hr⟩

/-- Whatever happens to the stream, the worker's and the consumer's steps and closes of it
included. -/
theorem run_told {p : Producer} {m : Nat} {ls : List Ev} (h : Run step (init p pt m) ls s) :
    s.Told pt :=
  h.invariant (P := fun s => s.Told pt) (fun _ _ _ hs hst => step_told hs hst) (init_told p pt m)

end Stream

/-- `RemoteGenerationStream.prompt_tokens`. -/
def RemoteStream.promptTokens {F : Type} (s : RemoteStream F) : Int :=
  if s.outcome.usageSeen then s.outcome.promptTokens else 0

theorem join_ofString (i : Nat) (tokens : List String) {F : Type} :
    join i (tokens.map fun token => (.str (Text.ofString token) : Value F)) =
      .ok (Text.ofString (String.join tokens)) := by
  induction tokens generalizing i with
  | nil => rfl
  | cons token tokens ih =>
    rw [List.map_cons, join, ih, String.join_cons]
    simp [Text.ofString, String.toList_append]

inductive StreamKind where
  | queue
  | remote
  deriving DecidableEq, Repr

/-- What an edge can say of the input tokens before the first token. -/
def StreamKind.startTokens : StreamKind → Int → Int
  | .queue, n => n
  | .remote, _ => 0

/-- What a stream that has come to its end was for an edge: the prompt tokens that it knew before
its first token, its tokens and its result. The texts of a remote one are Unicode strings. -/
inductive Ended : StreamKind → Int → List String → GenerationResult → Prop where
  | queue {p : Producer} {pt m : Nat} {ls : List Stream.Ev} {s : Stream} {r : GenerationResult}
      (hrun : Run Stream.step (Stream.init p pt m) ls s) (hended : s.consumer = .ended none)
      (hresult : s.result = some r) :
      Ended .queue (Stream.init p pt m).promptTokens (s.received.map (·.text)) r
  | remote {F : Type} {num : Numbers F} {maxPrestreamRetries : Nat} {isChat : Bool}
      {ls : List RemoteLabel} {s : RemoteStream F} {r' : RemoteResult} {pt : Int}
        {tokens : List String}
      {r : GenerationResult}
      (hrun : Run (RemoteStream.step num maxPrestreamRetries isChat) {} ls s)
      (hended : s.answer = some .stopAsyncIteration) (hresult : s.result = some r')
      (hbefore : ({} : RemoteStream F).promptTokens = pt)
      (htokens : s.parts = tokens.map fun token => .str (Text.ofString token))
      (htext : r'.text = Text.ofString r.text) (hfinish : r'.finishReason = r.finishReason)
      (hprompt : r'.promptTokens = r.promptTokens) (hcompletion : r'.completionTokens =
        r.completionTokens) :
      Ended .remote pt tokens r

theorem Ended.text {kind : StreamKind} {pt : Int} {tokens : List String} {r : GenerationResult}
    (h : Ended kind pt tokens r) (hcomplete : r.finishReason.complete = true) :
    r.text = String.join tokens := by
  cases h with
  | queue hrun hended hresult =>
    have htold := Stream.run_told hrun
    rcases htold.result r hresult with hcancelled | ⟨-, heq⟩
    · rw [hcancelled] at hcomplete
      cases hcomplete
    · rw [htold.received, heq]
      rfl
  | remote hrun hended hresult hbefore htokens htext =>
    obtain ⟨-, hreported, -⟩ := RemoteStream.run_reported hrun
    have hjoin := hreported.text _ hresult
    rw [htokens, join_ofString, htext] at hjoin
    exact (Text.ofString_injective (Except.ok.inj hjoin)).symm

theorem Ended.promptTokens_queue {pt : Int} {tokens : List String} {r : GenerationResult}
    (h : Ended .queue pt tokens r) (hcomplete : r.finishReason.complete = true) :
    pt = r.promptTokens := by
  cases h with
  | queue hrun hended hresult =>
    have htold := Stream.run_told hrun
    rcases htold.result r hresult with hcancelled | ⟨-, heq⟩
    · rw [hcancelled] at hcomplete
      cases hcomplete
    · rw [heq]
      exact congrArg Nat.cast htold.promptTokens.symm

theorem Ended.promptTokens_remote {pt : Int} {tokens : List String} {r : GenerationResult}
    (h : Ended .remote pt tokens r) : pt = 0 := by
  cases h with
  | remote hrun hended hresult hbefore =>
    exact hbefore.symm

/-! ## The edges -/

namespace Edge

open Effect Prog

/-- The frame of a yield. -/
def frame? : EdgeEvent → Option Frame
  | ⟨.yield f, _⟩ => some f
  | _ => none

/-- The response is pulled, and nothing fails or is interrupted. `context.abort` raises in any
case. -/
def Calm : EdgeEvent → Prop
  | ⟨.opened, x⟩ => x = .ok true
  | ⟨.abort, x⟩ => ∃ e, x = .error e ∧ e.isException = true
  | ⟨_, x⟩ => ∃ a, x = .ok a

/-- The same, of a request whose stream has the result `r`. -/
def CalmWith (r : GenerationResult) (ev : EdgeEvent) : Prop := Calm ev ∧ Tells (some r) ev

section Shows

variable {r : GenerationResult}

theorem shows_yield (f : Frame) : (yield f).Shows (CalmWith r) frame? [f] (.ok ()) := by
  refine shows_call fun x hx => ?_
  obtain ⟨⟨a, rfl⟩, -⟩ := hx
  exact ⟨rfl, rfl⟩

theorem shows_start : start.Shows (CalmWith r) frame? [] (.ok ()) := by
  refine shows_call fun x hx => ?_
  obtain ⟨⟨a, rfl⟩, -⟩ := hx
  exact ⟨rfl, rfl⟩

theorem shows_opened : opened.Shows (CalmWith r) frame? [] (.ok true) := by
  refine shows_call fun x hx => ?_
  obtain ⟨rfl, -⟩ := hx
  exact ⟨rfl, rfl⟩

theorem shows_anext : anext.Shows (CalmWith r) frame? [] (.ok ()) := by
  refine shows_call fun x hx => ?_
  obtain ⟨⟨a, rfl⟩, -⟩ := hx
  exact ⟨rfl, rfl⟩

theorem shows_aclose : aclose.Shows (CalmWith r) frame? [] (.ok ()) := by
  refine shows_call fun x hx => ?_
  obtain ⟨⟨a, rfl⟩, -⟩ := hx
  exact ⟨rfl, rfl⟩

theorem shows_result : result.Shows (CalmWith r) frame? [] (.ok (some r)) := by
  refine shows_call fun x hx => ?_
  obtain ⟨⟨a, rfl⟩, htells⟩ := hx
  exact ⟨rfl, congrArg _ htells⟩

theorem shows_finishGeneration (error : Option Exc) :
    (finishGeneration error).Shows (CalmWith r) frame? [] (.ok (some r)) := by
  refine shows_call fun x hx => ?_
  obtain ⟨⟨a, rfl⟩, htells⟩ := hx
  exact ⟨rfl, congrArg _ htells⟩

theorem shows_feed (n : Nat) : (feed n).Shows (CalmWith r) frame? [] (.ok ()) := by
  intro tr r' hpath hok
  rcases Path.bind_inv hpath with ⟨passed, tr₁, tr₂, rfl, hp, hrest⟩ | ⟨e, rfl, hp⟩
  · have htr₁ := hp.call_inv
    subst htr₁
    cases passed with
    | true =>
      have htr₂ := Path.call_inv hrest
      subst htr₂
      obtain ⟨⟨a, rfl⟩, -⟩ := hok ⟨.progress n, r'⟩ (by simp)
      exact ⟨rfl, rfl⟩
    | false =>
      cases hrest
      exact ⟨rfl, rfl⟩
  · have htr := hp.call_inv
    subst htr
    obtain ⟨⟨a, ha⟩, -⟩ := hok ⟨.intervalPassed, .error e⟩ (List.mem_singleton_self _)
    cases ha

theorem shows_asyncFor {body : Nat → String → EdgeProg Unit} {out : String → List Frame}
    (hbody : ∀ n text, (body n text).Shows (CalmWith r) frame? (out text) (.ok ()))
    (tokens : List String) (n : Nat) :
    (asyncFor body none n tokens).Shows (CalmWith r) frame? (tokens.flatMap out)
      (.ok (n + tokens.length)) := by
  induction tokens generalizing n with
  | nil => exact shows_anext.bind (shows_ret _)
  | cons text rest ih =>
    rw [List.length_cons, Nat.add_comm rest.length, ← Nat.add_assoc, List.flatMap_cons]
    refine shows_anext.bind ?_
    exact (hbody (n + 1) text).bind (ih (n + 1))

theorem shows_sse {body handler : EdgeProg Unit} {fs : List Frame}
    (hbody : body.Shows (CalmWith r) frame? fs (.ok ())) :
    (sse body handler).Shows (CalmWith r) frame? fs (.ok ()) := by
  have hclose : (close none).Shows (CalmWith r) frame? [] (.ok ()) :=
    shows_aclose.tryFinally (shows_finishGeneration none)
  rw [← List.append_nil fs]
  exact hbody.attempt_bind hclose

theorem shows_streamingResponse {g : EdgeProg Unit} {fs : List Frame}
    (hg : g.Shows (CalmWith r) frame? fs (.ok ())) :
    (streamingResponse g).Shows (CalmWith r) frame? fs (.ok ()) :=
  shows_start.bind (shows_opened.bind hg)

/-- The frames of a response of the OpenAI edge. -/
def openaiFrames (tokens : List String) (finish : FinishReason) : List Frame :=
  .openai (.chunk (some "assistant") none none) ::
    tokens.map (fun text => .openai (.chunk none (some text) none)) ++
    [.openai (.chunk none none (some (finishReason finish))), .openai .done]

theorem openaiSse_shows {s : Script} (hfin : s.fin = none) :
    (openaiSse s).Shows (CalmWith r) frame? (openaiFrames s.tokens r.finishReason) (.ok ()) := by
  refine shows_sse ?_
  rw [hfin, openaiFrames, List.map_eq_flatMap, List.cons_append]
  refine (shows_yield _).bind (Shows.bind (a := 0 + s.tokens.length) ?_ ?_)
  · refine shows_asyncFor (fun n text => ?_) s.tokens 0
    have h := (shows_yield (r := r) (.openai (.chunk none (some text) none))).bind
      (f := fun _ => feed n) (shows_feed n)
    rwa [List.append_nil] at h
  · refine shows_result.bind ?_
    exact (shows_yield _).bind (shows_yield _)

/-- The events of a response of the Anthropic edge. -/
def anthropicFrames (promptTokens : Int) (tokens : List String) (r : GenerationResult) :
    List Frame :=
  .anthropic (.messageStart promptTokens) :: .anthropic .contentBlockStart :: .anthropic .ping ::
    tokens.map (fun text => .anthropic (.contentBlockDelta text)) ++
    [.anthropic .contentBlockStop,
      .anthropic (.messageDelta (stopReason r.finishReason) r.completionTokens),
        .anthropic .messageStop]

theorem anthropicSse_shows {s : Script} (hfin : s.fin = none) :
    (anthropicSse s).Shows (CalmWith r) frame?
      (anthropicFrames s.promptTokens s.tokens r) (.ok ()) := by
  refine shows_sse ?_
  rw [hfin, anthropicFrames, List.map_eq_flatMap, List.cons_append, List.cons_append,
    List.cons_append]
  refine (shows_yield _).bind ((shows_yield _).bind ((shows_yield _).bind ?_))
  refine Shows.bind (a := 0 + s.tokens.length) ?_ ?_
  · refine shows_asyncFor (fun n text => ?_) s.tokens 0
    have h := (shows_yield (r := r) (.anthropic (.contentBlockDelta text))).bind
      (f := fun _ => feed n) (shows_feed n)
    rwa [List.append_nil] at h
  · refine shows_result.bind ?_
    exact (shows_yield _).bind ((shows_yield _).bind (shows_yield _))

theorem collectedResponse_shows (answer : GenerationResult → Completion) {s : Script}
    (hfin : s.fin = none) :
    (collectedResponse answer s).Shows (CalmWith r) frame? [] (.ok (answer r)) := by
  have hloop : (asyncFor (fun _ _ => (pure () : EdgeProg Unit)) none 0 s.tokens).Shows (CalmWith r)
      frame? (s.tokens.flatMap fun _ => []) (.ok (0 + s.tokens.length)) :=
    shows_asyncFor (fun _ _ => shows_ret ()) s.tokens 0
  have hcollect : (collect s).Shows (CalmWith r) frame? (s.tokens.flatMap fun _ => []) (.ok r) := by
    unfold collect
    rw [hfin, ← List.append_nil (s.tokens.flatMap _)]
    refine hloop.bind ?_
    exact shows_result.bind (shows_ret r)
  have hnone : s.tokens.flatMap (fun _ => ([] : List Frame)) = [] := by simp
  rw [hnone] at hcollect
  refine shows_start.bind ?_
  refine hcollect.attempt_bind ?_
  exact (shows_finishGeneration none).bind (shows_ret _)

end Shows

/-- The text of a delta. -/
def Frame.delta? : Frame → Option String
  | .openai (.chunk _ content _) => content
  | .anthropic (.contentBlockDelta text) => some text
  | .grpc (.text text) => some text
  | _ => none

/-- The finish or stop reason. -/
def Frame.finish? : Frame → Option String
  | .openai (.chunk _ _ finish) => finish
  | .anthropic (.messageDelta reason _) => some reason
  | .grpc (.done reason _ _) => some reason
  | _ => none

def Frame.inputTokens? : Frame → Option Int
  | .anthropic (.messageStart inputTokens) => some inputTokens
  | _ => none

def Frame.outputTokens? : Frame → Option Int
  | .anthropic (.messageDelta _ outputTokens) => some outputTokens
  | _ => none

def Completion.text : Completion → String
  | .chatCompletion content _ _ _ _ => content
  | .message text _ _ _ => text

def Completion.finish : Completion → String
  | .chatCompletion _ finish _ _ _ => finish
  | .message _ reason _ _ => reason

def Completion.inputTokens : Completion → Int
  | .chatCompletion _ _ promptTokens _ _ => promptTokens
  | .message _ _ inputTokens _ => inputTokens

def Completion.outputTokens : Completion → Int
  | .chatCompletion _ _ _ completionTokens _ => completionTokens
  | .message _ _ _ outputTokens => outputTokens

/-- The frames of a request, whatever the transport and the stores answer. -/
def frames (env : EdgeEnv) (d : Dialect) (s : Script) : List Frame :=
  ((request d s).run env []).1.filterMap frame?

/-- What is streamed is what is collected. -/
structure Agrees (fs : List Frame) (c : Completion) : Prop where
  text : String.join (fs.filterMap (·.delta?)) = c.text
  /-- told once -/
  finish : fs.filterMap (·.finish?) = [c.finish]

theorem agrees_openai (tokens : List String) (r : GenerationResult)
    (htext : r.text = String.join tokens) (n m k : Int) :
    Agrees (openaiFrames tokens r.finishReason)
      (.chatCompletion r.text (finishReason r.finishReason) n m k) where
  text := by simp [openaiFrames, List.filterMap_append, List.filterMap_map, Frame.delta?,
    Completion.text, htext]
  finish := by simp [openaiFrames, List.filterMap_append, List.filterMap_map,
    Frame.finish?, Completion.finish]

theorem agrees_anthropic (pt : Int) (tokens : List String) (r : GenerationResult)
    (htext : r.text = String.join tokens) (n m : Int) :
    Agrees (anthropicFrames pt tokens r) (.message r.text (stopReason r.finishReason) n m) where
  text := by simp [anthropicFrames, List.filterMap_append, List.filterMap_map,
    Frame.delta?, Completion.text, htext]
  finish := by simp [anthropicFrames, List.filterMap_append, List.filterMap_map,
    Frame.finish?, Completion.finish]

/-- For every stream of either kind that has ended normally, on both edges that stream and collect:
the deltas make up the collected text, and the finish or stop reason is the same. The Anthropic
events always come in one order, `message_delta` has the collected `output_tokens`, and
`message_start` has the collected `input_tokens` of a local stream and 0 for a remote one. -/
theorem streamed_agrees {kind : StreamKind} {pt : Int} {tokens : List String} {r : GenerationResult}
    (h : Ended kind pt tokens r) (hcomplete : r.finishReason.complete = true) {env env' : EdgeEnv}
    (henv : ∀ past op, CalmWith r ⟨op, env past op⟩) (henv' : ∀ past op,
      CalmWith r ⟨op, env' past op⟩) (known : Bool) :
    let s : Script := ⟨tokens, none, pt, known⟩
    (∃ c, ((chatCompletion s).run env' []).2 = .ok c ∧ Agrees (frames env .openai s) c) ∧
    ∃ m, ((message s).run env' []).2 = .ok m ∧ Agrees (frames env .anthropic s) m ∧
      frames env .anthropic s = anthropicFrames pt tokens r ∧
      (frames env .anthropic s).filterMap (·.outputTokens?) = [m.outputTokens] ∧
      (frames env .anthropic s).filterMap (·.inputTokens?) = [kind.startTokens m.inputTokens] := by
  intro s
  have htext := h.text hcomplete
  have hopenai : frames env .openai s = openaiFrames tokens r.finishReason :=
    ((shows_streamingResponse (openaiSse_shows (s := s) rfl)).run henv []).1
  have hanthropic : frames env .anthropic s = anthropicFrames pt tokens r :=
    ((shows_streamingResponse (anthropicSse_shows (s := s) rfl)).run henv []).1
  refine ⟨⟨_, ((collectedResponse_shows _ rfl).run henv' []).2, ?_⟩,
    _, ((collectedResponse_shows _ rfl).run henv' []).2, ?_, hanthropic, ?_, ?_⟩
  · rw [hopenai]
    exact agrees_openai tokens r htext ..
  · rw [hanthropic]
    exact agrees_anthropic pt tokens r htext ..
  · rw [hanthropic]
    simp [anthropicFrames, List.filterMap_append, List.filterMap_map,
      Frame.outputTokens?, Completion.outputTokens]
  · have hinput : (anthropicFrames pt tokens r).filterMap (·.inputTokens?) = [pt] := by
      simp [anthropicFrames, List.filterMap_append, List.filterMap_map,
        Frame.inputTokens?]
    rw [hanthropic, hinput]
    cases kind with
    | queue => rw [h.promptTokens_queue hcomplete]; rfl
    | remote => rw [h.promptTokens_remote]; rfl

/-- A request whose stream has the result `r`, and on which nothing goes wrong. -/
def calm (r : GenerationResult) : EdgeEnv := fun _ op =>
  match op with
  | .opened => .ok true
  | .intervalPassed => .ok false
  | .result | .finish _ => .ok (some r)
  | .abort => .error (.other "")
  | .start | .yield _ | .anext | .progress _ | .aclose | .lock | .closeAll => .ok ()

theorem calm_calmWith (r : GenerationResult) (past : List EdgeEvent) (op : Op) :
    CalmWith r ⟨op, calm r past op⟩ := by
  cases op with
  | opened => exact ⟨rfl, trivial⟩
  | abort => exact ⟨⟨_, rfl, rfl⟩, trivial⟩
  | intervalPassed | start | yield | anext | progress | aclose | lock | closeAll =>
    exact ⟨⟨_, rfl⟩, trivial⟩
  | result | finish => exact ⟨⟨_, rfl⟩, rfl⟩

theorem twoTokens_ended : Ended .queue 3 ["a", "b"] ⟨"ab", .length, 3, 2⟩ := by
  have hrun : Run Stream.step (Stream.init Stream.twoTokensProducer 3 1) Stream.twoTokens
      Stream.twoTokensEnd := run_of_exec (by simp [Stream.twoTokensEnd])
  have hended : Stream.twoTokensEnd.consumer = .ended none := by decide +kernel
  have hresult : Stream.twoTokensEnd.result = some ⟨"ab", .length, 3, 2⟩ := by decide +kernel
  have htokens : Stream.twoTokensEnd.received.map (·.text) = ["a", "b"] := by decide +kernel
  have hstream := Ended.queue hrun hended hresult
  rwa [htokens] at hstream

/-- A local stream of two tokens. -/
theorem streamed_agrees_twoTokens :
    let s : Script := ⟨["a", "b"], none, 3, true⟩
    ∃ m, ((message s).run (calm ⟨"ab", .length, 3, 2⟩) []).2 = .ok m ∧
      (frames (calm ⟨"ab", .length, 3, 2⟩) .anthropic s).filterMap
        (·.inputTokens?) = [m.inputTokens] := by
  obtain ⟨-, m, hm, -, -, -, hinput⟩ :=
    streamed_agrees twoTokens_ended rfl (calm_calmWith _) (calm_calmWith _) true
  exact ⟨m, hm, hinput⟩

/-- A reply of one token, with a usage of five and one. -/
def countedReply : List RemoteLabel :=
  [.anext, .replied 200 none,
    .line ("data: \x7b\"choices\": [\x7b\"delta\": \x7b\"content\": \"a\"\x7d\x7d], " ++
      "\"usage\": \x7b\"prompt_tokens\": 5, \"completion_tokens\": 1\x7d\x7d").toList,
    .anext, .line "data: [DONE]".toList]

/-- What is looked at of a remote stream. -/
def remoteReport (s : RemoteStream ExactFloat) : List (Option Text) × Option RemoteResult × Bool :=
  (s.parts.map fun
      | .str t => some t
      | _ => none,
    s.result,
    match s.answer with
    | some .stopAsyncIteration => true
    | _ => false)

/-- The streaming client is told of no input tokens, the other one of five. -/
theorem remote_input_tokens_differ :
    let r : GenerationResult := ⟨"a", .stop, 5, 1⟩
    let s : Script := ⟨["a"], none, 0, true⟩
    Ended .remote 0 ["a"] r ∧
      (frames (calm r) .anthropic s).filterMap (·.inputTokens?) = [0] ∧
      ((message s).run (calm r) []).2 = .ok (.message "a" "end_turn" 5 1) := by
  intro r s
  refine ⟨?_, by decide +kernel, by decide +kernel⟩
  have hexec : (exec (RemoteStream.step Numbers.exact 0 true) {} countedReply).map remoteReport =
      some ([some (Text.ofString "a")], some ⟨Text.ofString "a", .stop, 5, 1⟩, true) := by
    decide +kernel
  obtain ⟨t, hrun, ht⟩ := run_of_exec_map hexec
  simp only [remoteReport, Prod.mk.injEq] at ht
  obtain ⟨hparts, hresult, hanswer⟩ := ht
  refine .remote hrun ?_ hresult rfl ?_ rfl rfl rfl rfl
  · split at hanswer
    · assumption
    · cases hanswer
  · cases hp : t.parts with
    | nil => simp [hp] at hparts
    | cons v rest =>
      simp only [hp, List.map_cons, List.cons.injEq, List.map_eq_nil_iff] at hparts
      obtain ⟨hv, rfl⟩ := hparts
      split at hv
      · cases hv
        rfl
      · cases hv

end Edge
end InferenceEngine
