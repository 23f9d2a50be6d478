import InferenceEngine.Edge.Agreement
import InferenceEngine.Edge.FinishOnce
import InferenceEngine.Serving.Core

/-!
# Edge.Disconnects

Clients that go away. The task of a request is cancelled at an await, or its generator is closed at
a yield: on each edge, over the streams of both kinds, what happens to the request then.

An automaton (`Course`) follows a request: which interruptions it has had, how often the stream was
asked for a token, and whether the request is finished. It gets stuck at an error frame, at a
request that is finished with an error, and when the stream is asked again after an interruption or
after the finish.

* `request_obeys`: it never gets stuck, and a request that was interrupted ends with an
  interruption.
* `disconnect_recorded`: such a request is recorded without an error, as a disconnect if the stream
  had not come to its end.

Of an interruption within `__anext__` of a remote stream nothing is said: that call turns it into a
failure of the generation.
-/

namespace InferenceEngine

open Lts Json Py

/-! ## The streams -/

namespace RemoteStream

variable {F : Type} {num : Numbers F} {maxPrestreamRetries : Nat} {isChat : Bool}
  {s s' : RemoteStream F}
  {l : RemoteLabel}

/-- The consumer was told of an end. -/
def told (s : RemoteStream F) : Bool :=
  match s.answer with
  | some .stopAsyncIteration | some (.raised _) => true
  | _ => false

/-- Before the consumer is told of an end, a result is that of a close. -/
def Untold (s : RemoteStream F) : Prop :=
  s.told = false → ∀ r ∈ s.result, r.finishReason = .cancelled

theorem untold_none (h : s.result = none) : s.Untold := by
  intro _ r hr
  rw [h] at hr
  cases hr

theorem conclude_untold (s : RemoteStream F) (finish : FinishReason) {answer : Answer F}
    (hanswer : ∀ v i, answer ≠ .chunk v i) : (s.conclude finish answer).Untold := by
  intro htold
  unfold RemoteStream.conclude at htold
  split at htold
  · cases answer with
    | chunk v i => exact absurd rfl (hanswer v i)
    | _ => cases htold
  · cases htold

theorem Pending.settle_untold (hs : Pending num s) : s.settle.Untold := by
  unfold RemoteStream.settle
  split
  · exact untold_none hs.result
  · exact untold_none hs.result
  · exact untold_none hs.result
  · exact untold_none hs.result
  · exact conclude_untold s _ fun _ _ h => by cases h
  · exact conclude_untold s _ fun _ _ h => by cases h

theorem closeTokens_answer (s : RemoteStream F) :
    s.closeTokens.answer = s.answer ∧ s.closeTokens.result = s.result := by
  unfold RemoteStream.closeTokens
  split
  · exact ⟨rfl, rfl⟩
  · exact ⟨rfl, rfl⟩
  · exact ⟨rfl, rfl⟩

/-- A close builds the result of a disconnect, if there is none. -/
theorem Untold.close (huntold : s.Untold) {t : RemoteStream F}
    (h : { s with closed := true }.closeTokens.buildResult .cancelled = .ok t) :
    { t with exhausted := true }.Untold := by
  obtain ⟨hanswer, hresult⟩ := closeTokens_answer { s with closed := true }
  unfold buildResult at h
  split at h
  · cases h
    intro htold r hr
    simp only [told, hanswer] at htold
    have hr : r ∈ s.result := hresult ▸ hr
    exact huntold htold r hr
  · split at h
    · cases h
    · cases h
      intro _ r hr
      cases hr
      rfl

theorem step_untold (hinv : Inv num maxPrestreamRetries isChat s) (hs : Reported num s)
    (huntold : s.Untold) (hst : step num maxPrestreamRetries isChat s l = some s') : s'.Untold := by
  cases moves_of_step hst with
  | drained hidle hexhausted => exact fun htold => by cases htold
  | start hplace hexhausted =>
    have hpending : Pending num { s with place := .posting } :=
      hs.pending (by rw [hplace]; rfl) (by simp)
    exact (Pending.post hpending (by simp)).settle_untold
  | @resume v rest hplace hexhausted =>
    have hrest := hinv.rest v rest hplace
    subst hrest
    have hpending : Pending num { s with place := .reading } :=
      hs.pending (by rw [hplace]; rfl) (by simp)
    exact hpending.settle_untold
  | again hended hexhausted => exact conclude_untold s _ fun _ _ h => by cases h
  | closed hidle hclosed => exact huntold
  | close hidle hclosed hresult => exact huntold.close hresult
  | closeRaises hidle hclosed hresult => exact fun htold => by cases htold
  | refused fault hplace | unreadable fault hplace | broke fault hplace =>
    exact (hs.fault (by rw [hplace]; rfl) fault).settle_untold
  | opened read hplace =>
    have hpending : Pending num { s with place := .reading } :=
      hs.pending (by rw [hplace]; rfl) (by simp)
    exact hpending.settle_untold
  | rejected hplace => exact (hs.caught (by rw [hplace]; rfl) _ _).settle_untold
  | line line hplace => exact (hs.receive (by rw [hplace]; rfl) line).settle_untold
  | ended hplace =>
    have hpending : Pending num { s with place := .returned } :=
      hs.pending (by rw [hplace]; rfl) (by simp)
    exact hpending.settle_untold

theorem run_untold {ls : List RemoteLabel} (h : Run (step num maxPrestreamRetries isChat) {} ls s) :
    s.Untold := by
  have hall := h.invariant (P := fun s => Inv num maxPrestreamRetries isChat s ∧
      Reported num s ∧ s.Untold)
    (fun _ _ _ hs hst =>
      ⟨step_inv hs.1 hst, step_reported hs.1 hs.2.1 hst, step_untold hs.1 hs.2.1 hs.2.2 hst⟩)
    ⟨init_inv, init_reported, untold_none rfl⟩
  exact hall.2.2

end RemoteStream

/-- A stream that has handed out its tokens so far, and whose consumer was told of no end, as an
edge sees it. -/
inductive Going : StreamKind → List String → Option GenerationResult → Prop where
  | queue {p : Producer} {pt m : Nat} {ls : List Stream.Ev} {s : Stream}
      (hrun : Run Stream.step (Stream.init p pt m) ls s) (hgoing : s.consumer.hasEnded = false) :
      Going .queue (s.received.map (·.text)) s.result
  | remote {F : Type} {num : Numbers F} {maxPrestreamRetries : Nat} {isChat : Bool}
      {ls : List RemoteLabel} {s : RemoteStream F} {tokens : List String}
        {res : Option GenerationResult}
      (hrun : Run (RemoteStream.step num maxPrestreamRetries isChat) {} ls s)
        (hgoing : s.told = false)
      (htokens : s.parts = tokens.map fun token => .str (Text.ofString token))
      (hresult : res.map (·.finishReason) =
        s.result.map (·.finishReason)) : Going .remote tokens res

theorem Going.cancelled {kind : StreamKind} {tokens : List String} {res : Option GenerationResult}
    (h : Going kind tokens res) : ∀ r ∈ res, r.finishReason = .cancelled := by
  intro r hr
  cases h with
  | queue hrun hgoing => exact (Stream.run_told hrun).cancelled hgoing hr
  | @remote F num n isChat ls s _ _ hrun hgoing htokens hresult =>
    cases hr
    obtain ⟨r', hr', heq⟩ := Option.map_eq_some_iff.mp hresult.symm
    exact heq.symm.trans (RemoteStream.run_untold hrun hgoing r' hr')

/-! ## The course of a request -/

namespace Edge

open Effect Prog

/-- The awaits at which the task of a request is interrupted: `__anext__` of a remote stream is none
of them. -/
def Op.awaits : StreamKind → Op → Bool
  | .queue, .anext => true
  | _, .start | _, .yield _ | _, .aclose | _, .lock => true
  | _, _ => false

/-- Nothing fails, but an await may be interrupted by `e`. -/
def Disturbs (kind : StreamKind) (e : Exc) (ev : EdgeEvent) : Prop :=
  Calm ev ∨ ev.1.awaits kind = true ∧ ev.2 = .error e

def Frame.isError : Frame → Bool
  | .openai (.error _ _) | .anthropic (.error _ _) => true
  | _ => false

structure Course where
  /-- the interruptions, the last one first -/
  cuts : List Exc := []
  /-- how often the stream has answered -/
  asked : Nat := 0
  finished : Bool := false
  deriving DecidableEq, Repr

namespace Course

def cut {α : Type} (q : Course) : Except Exc α → Course
  | .ok _ => q
  | .error e => { q with cuts := e :: q.cuts }

/-- The stream is not asked after an interruption or after the finish, no error frame is sent, the
call is not aborted, and the request is finished without an error. -/
def next (q : Course) : EdgeEvent → Option Course
  | ⟨.anext, .ok _⟩ =>
    if q.cuts.isEmpty && !q.finished then some { q with asked := q.asked + 1 } else none
  | ⟨.anext, .error e⟩ =>
    if q.cuts.isEmpty && !q.finished then some { q with cuts := [e] } else none
  | ⟨.yield f, x⟩ => if f.isError then none else some (q.cut x)
  | ⟨.finish error, x⟩ => if error.isSome then none else some { q.cut x with finished := true }
  | ⟨.abort, _⟩ => none
  | ⟨_, x⟩ => some (q.cut x)

/-- The task of the request raises an interruption that it was given. -/
def Halts (q : Course) (e : Exc) : Prop := e ∈ q.cuts ∧ e.isException = false

end Course

/-- At a point of the request where the stream has answered so often: an interruption or nothing,
and the generation does not fail by itself. -/
def Allowed (kind : StreamKind) (s : Script) (q : Course) (ev : EdgeEvent) : Prop :=
  (∃ e, e.isException = false ∧ Disturbs kind e ev) ∧
    ∀ u, ev = ⟨.anext, .ok u⟩ → s.fin = none ∨ q.asked < s.tokens.length

section Obeys

variable {kind : StreamKind} {s : Script} {q : Course}

theorem Disturbs.error {ev : EdgeEvent} {e e' : Exc} (h : Disturbs kind e ev) (hop : ev.1 ≠ .abort)
    (he' : ev.2 = .error e') : e' = e := by
  obtain ⟨op, x⟩ := ev
  have he' : x = .error e' := he'
  subst he'
  rcases h with hcalm | ⟨-, heq⟩
  · cases op with
    | abort => exact absurd rfl hop
    | opened => cases hcalm
    | _ =>
      obtain ⟨a, ha⟩ := hcalm
      cases ha
  · exact Except.error.inj heq

theorem Allowed.interruption {op : Op} {e : Exc} (h : Allowed kind s q ⟨op, .error e⟩)
    (hop : op ≠ .abort) :
    e.isException = false := by
  obtain ⟨⟨e', he', hdisturbs⟩, -⟩ := h
  rw [hdisturbs.error hop rfl]
  exact he'

/-- Programs that keep to the course. -/
abbrev Keeps {α : Type} (kind : StreamKind) (s : Script) (R : Course → α → Prop)
    (E : Course → Exc → Prop) (q : Course) (p : EdgeProg α) : Prop :=
  p.Obeys (Allowed kind s) Course.next R E q

theorem keeps_call {op : Op} (hop : op ≠ .abort) (hnext : ∀ x, q.next ⟨op, x⟩ = some (q.cut x)) :
    Keeps kind s (fun q' _ => q' = q)
      (fun q' e => q' = { q with cuts := e :: q.cuts } ∧ q'.Halts e) q
      (call op : EdgeProg op.Res) := by
  refine obeys_call fun x hx => ⟨_, hnext x, ?_⟩
  cases x with
  | ok a => rfl
  | error e => exact ⟨rfl, List.mem_cons_self .., hx.interruption hop⟩

theorem keeps_plain {op : Op} (hop : op ≠ .abort) (hnext : ∀ x, q.next ⟨op, x⟩ = some (q.cut x)) :
    Keeps kind s (fun q' _ => q' = q) Course.Halts q (call op : EdgeProg op.Res) :=
  (keeps_call hop hnext).mono (fun _ _ h => h) fun _ _ h => h.2

theorem keeps_yield {f : Frame} (hf : f.isError = false) (q : Course) :
    Keeps kind s (fun q' _ => q' = q) Course.Halts q (yield f) := by
  refine keeps_plain (by simp) fun x => ?_
  rw [Course.next, hf]
  rfl

/-- `finish_generation` and `close_all` are no awaits. -/
theorem Allowed.calm {op : Op} {x : Except Exc op.Res} (h : Allowed kind s q ⟨op, x⟩)
    (hop : op.awaits kind = false) : Calm ⟨op, x⟩ := by
  obtain ⟨⟨e, -, hcalm | ⟨hawait, -⟩⟩, -⟩ := h
  · exact hcalm
  · rw [hop] at hawait
    cases hawait

theorem keeps_finish :
    Keeps kind s (fun q' _ => q' = { q with finished := true }) (fun _ _ => False) q
      (finishGeneration none) := by
  refine obeys_call fun x hx => ⟨_, rfl, ?_⟩
  obtain ⟨a, rfl⟩ := hx.calm (by cases kind <;> rfl)
  rfl

theorem keeps_closeAll : Keeps kind s (fun q' _ => q' = q) (fun _ _ => False) q closeAll := by
  refine obeys_call fun x hx => ⟨_, rfl, ?_⟩
  obtain ⟨a, rfl⟩ := hx.calm (by cases kind <;> rfl)
  rfl

/-- There has been no interruption, and the request is not finished. -/
def Course.Fresh (q : Course) : Prop := q.cuts = [] ∧ q.finished = false

theorem keeps_anext (hq : q.Fresh) :
    Keeps kind s
      (fun q' _ => q' = { q with asked := q.asked + 1 } ∧
      (s.fin = none ∨ q.asked < s.tokens.length))
      Course.Halts q anext := by
  refine obeys_call fun x hx => ?_
  cases x with
  | ok u =>
    refine ⟨{ q with asked := q.asked + 1 }, ?_, rfl, hx.2 u rfl⟩
    rw [Course.next, hq.1, hq.2]
    rfl
  | error e =>
    refine ⟨{ q with cuts := [e] }, ?_, List.mem_singleton_self e, hx.interruption (by simp)⟩
    rw [Course.next, hq.1, hq.2]
    rfl

theorem keeps_feed (n : Nat) : Keeps kind s (fun q' _ => q' = q) Course.Halts q (feed n) := by
  refine Obeys.bind (keeps_plain (by simp) fun _ => rfl) fun q' passed hq' => ?_
  subst hq'
  cases passed with
  | true => exact keeps_plain (by simp) fun _ => rfl
  | false => rfl

theorem keeps_delta {f : Frame} (hf : f.isError = false) (n : Nat) (q : Course) :
    Keeps kind s (fun q' _ => q' = q) Course.Halts q ((yield f).bind fun _ => feed n) := by
  refine Obeys.bind (keeps_yield hf q) fun q' _ hq' => ?_
  subst hq'
  exact keeps_feed n

/-- The loop over the stream, when there are so many tokens left. -/
theorem keeps_asyncFor {body : Nat → String → EdgeProg Unit}
    (hbody : ∀ n text (q : Course), Keeps kind s (fun q' _ => q' = q) Course.Halts q (body n text))
    {rest : List String} (hq : q.Fresh)
      (hrest : q.asked + rest.length = s.tokens.length) (n : Nat) :
    Keeps kind s (fun q' _ => q'.Fresh) Course.Halts q (asyncFor body s.fin n rest) := by
  induction rest generalizing q n with
  | nil =>
    refine Obeys.bind (keeps_anext hq) fun q' _ hq' => ?_
    obtain ⟨rfl, hfin⟩ := hq'
    rcases hfin with hfin | hlt
    · rw [hfin]
      exact hq
    · rw [List.length_nil, Nat.add_zero] at hrest
      omega
  | cons text rest ih =>
    refine Obeys.bind (keeps_anext hq) fun q' _ hq' => ?_
    obtain ⟨rfl, -⟩ := hq'
    refine Obeys.bind (hbody (n + 1) text _) fun q' _ hq' => ?_
    subst hq'
    refine ih (q := { q with asked := q.asked + 1 }) hq ?_ (n + 1)
    rw [List.length_cons] at hrest
    show q.asked + 1 + rest.length = s.tokens.length
    omega

theorem keeps_close :
    Keeps kind s (fun q' _ => q'.cuts = q.cuts) Course.Halts q (close none) := by
  refine Obeys.tryFinally (keeps_call (by simp) fun _ => rfl)
    (fun q' _ hq' => ?_) fun q' e hq' => ?_
  · subst hq'
    refine keeps_finish.mono (fun q' _ hq' => ?_) fun _ _ h => h.elim
    rw [hq']
  · obtain ⟨-, hhalts⟩ := hq'
    refine keeps_finish.mono (fun q₁ _ hq₁ => ?_) fun _ _ h => h.elim
    rw [hq₁]
    exact hhalts

/-- An exception that is raised again after something else. -/
theorem Course.Halts.of_cuts {q' : Course} {e : Exc} (h : q.Halts e) (hcuts : q'.cuts = q.cuts) :
    q'.Halts e := ⟨hcuts ▸ h.1, h.2⟩

theorem keeps_raise_finally {e : Exc} {g : EdgeProg Unit} {R : Course → Unit → Prop}
    (hg : Keeps kind s (fun q' _ => q'.Halts e) Course.Halts q g) :
    Keeps kind s R Course.Halts q (tryFinally (raise e) g) := by
  refine Obeys.tryFinally (R := fun _ _ => False) (E := fun q₁ e₁ => q₁ = q ∧ e₁ = e) ⟨rfl, rfl⟩
    (fun _ _ h => h.elim) fun q₁ e₁ h₁ => ?_
  obtain ⟨rfl, rfl⟩ := h₁
  exact hg

theorem keeps_sse {body handler : EdgeProg Unit}
    (hbody : Keeps kind s (fun q' _ => q'.Fresh) Course.Halts q body) :
    Keeps kind s (fun q' _ => q'.cuts = []) Course.Halts q (sse body handler) := by
  refine Obeys.attempt_bind hbody (fun q' _ hq' => ?_) fun q' e hq' => ?_
  · refine keeps_close.mono (fun q₁ _ hq₁ => ?_) fun _ _ h => h
    rw [hq₁, hq'.1]
  · simp only [hq'.2, Bool.false_eq_true, if_false]
    exact keeps_raise_finally (keeps_close.mono (fun _ _ hq₁ => hq'.of_cuts hq₁) fun _ _ h => h)

theorem keeps_openaiSse (hq : q.Fresh) (hasked : q.asked = 0) :
    Keeps kind s (fun q' _ => q'.cuts = []) Course.Halts q (openaiSse s) := by
  refine keeps_sse (Obeys.bind (keeps_yield rfl q) fun q' _ hq' => ?_)
  subst hq'
  refine Obeys.bind (keeps_asyncFor (fun n text => keeps_delta rfl n) hq
    (by omega) 0) fun q' _ hq' => ?_
  refine Obeys.bind (keeps_plain (by simp) fun _ => rfl) fun q₁ _ hq₁ => ?_
  subst hq₁
  refine Obeys.bind (keeps_yield rfl _) fun q₂ _ hq₂ => ?_
  subst hq₂
  exact (keeps_yield rfl _).mono (fun _ _ h => h ▸ hq') fun _ _ h => h

theorem keeps_anthropicSse (hq : q.Fresh) (hasked : q.asked = 0) :
    Keeps kind s (fun q' _ => q'.cuts = []) Course.Halts q (anthropicSse s) := by
  refine keeps_sse (Obeys.bind (keeps_yield rfl q) fun q' _ hq' => ?_)
  subst hq'
  refine Obeys.bind (keeps_yield rfl _) fun q' _ hq' => ?_
  subst hq'
  refine Obeys.bind (keeps_yield rfl _) fun q' _ hq' => ?_
  subst hq'
  refine Obeys.bind (keeps_asyncFor (fun n text => keeps_delta rfl n) hq
    (by omega) 0) fun q' _ hq' => ?_
  refine Obeys.bind (keeps_plain (by simp) fun _ => rfl) fun q₁ _ hq₁ => ?_
  subst hq₁
  refine Obeys.bind (keeps_yield rfl _) fun q₂ _ hq₂ => ?_
  subst hq₂
  refine Obeys.bind (keeps_yield rfl _) fun q₃ _ hq₃ => ?_
  subst hq₃
  exact (keeps_yield rfl _).mono (fun _ _ h => h ▸ hq') fun _ _ h => h

theorem keeps_streamingResponse {g : EdgeProg Unit} (hq : q.cuts = [])
    (hg : Keeps kind s (fun q' _ => q'.cuts = []) Course.Halts q g) :
    Keeps kind s (fun q' _ => q'.cuts = []) Course.Halts q (streamingResponse g) := by
  refine Obeys.bind (keeps_plain (by simp) fun _ => rfl) fun q' _ hq' => ?_
  subst hq'
  refine Obeys.bind (keeps_plain (by simp) fun _ => rfl) fun q' pulled hq' => ?_
  subst hq'
  cases pulled with
  | true => exact hg
  | false => exact hq

/-- `_drain_and_finish`: the request is finished, however the close ends. -/
theorem keeps_drainAndFinish :
    Keeps kind s (fun q' _ => q'.cuts = q.cuts) Course.Halts q (drainAndFinish none) := by
  refine Obeys.attempt_bind (keeps_plain (by simp) fun _ => rfl)
    (fun q' _ hq' => ?_) fun q' e hq' => ?_
  · subst hq'
    exact keeps_finish.mono (fun _ _ h => by rw [h]) fun _ _ h => h.elim
  · simp only [hq'.2, Bool.false_eq_true, if_false]
    refine Obeys.attempt_bind keeps_finish (fun q₁ _ hq₁ => ?_) fun _ _ h => h.elim
    subst hq₁
    exact hq'

theorem keeps_streamEnd (hq : q.cuts = []) :
    Keeps kind s (fun q' _ => q'.cuts = []) Course.Halts q (streamEnd none) := by
  refine Obeys.bind keeps_drainAndFinish fun q' _ hq' => ?_
  exact (keeps_yield rfl q').mono (fun _ _ h => by rw [h, hq', hq]) fun _ _ h => h

theorem keeps_stream (hq : q.Fresh) (hasked : q.asked = 0) :
    Keeps kind s (fun q' _ => q'.cuts = []) Course.Halts q (stream s) := by
  refine Obeys.attempt_bind (keeps_asyncFor (fun _ _ => keeps_yield rfl) hq (by omega) 0)
    (fun q' _ hq' => keeps_streamEnd hq'.1) fun q' e hq' => ?_
  -- an interruption is no `GenerationFailedError`
  have hraise : Keeps (α := Unit) kind s (fun q' _ => q'.cuts = []) Course.Halts q'
      ((drainAndFinish none).bind fun _ => raise e) :=
    Obeys.bind keeps_drainAndFinish fun _ _ hq₁ => hq'.of_cuts hq₁
  cases e with
  | cancelledError => exact hraise
  | generatorExit => exact hraise
  | _ => cases hq'.2

theorem keeps_startStream (hq : q.Fresh) (hasked : q.asked = 0) :
    Keeps kind s (fun q' _ => q'.cuts = []) Course.Halts q (startStream s) := by
  refine Obeys.attempt_bind (keeps_plain (by simp) fun _ => rfl)
    (fun q' _ hq' => ?_) fun q' e hq' => ?_
  · subst hq'
    exact keeps_stream hq hasked
  · cases e with
    | cancelledError => exact hq'
    | generatorExit => exact hq'
    | _ => cases hq'.2

/-- The inner generator of a relay that was interrupted by `e`, and the relay itself: the inner one
is closed with a `GeneratorExit`. -/
structure Relays (e : Exc) (q₁ q₂ : Course) : Prop where
  inner : q₁.cuts ≠ []
  outer : e ∈ q₂.cuts
  cuts : ∀ e' ∈ q₁.cuts, e' ∈ q₂.cuts ∨ e' = .generatorExit
  asked : q₁.asked = q₂.asked
  finished : q₁.finished = q₂.finished

theorem Relays.cut {e : Exc} {q₁ q₂ : Course} (h : Relays e q₁ q₂) {α : Type} (x : Except Exc α) :
    Relays e (q₁.cut x) (q₂.cut x) := by
  cases x with
  | ok a => exact h
  | error e' =>
    refine ⟨List.cons_ne_nil _ _, List.mem_cons_of_mem _ h.outer, fun e'' he'' => ?_,
      h.asked, h.finished⟩
    rcases List.mem_cons.mp he'' with rfl | he''
    · exact .inl (List.mem_cons_self ..)
    · exact (h.cuts e'' he'').imp_left (List.mem_cons_of_mem _)

theorem Relays.next {e : Exc} {q₁ q₂ q₁' : Course} (h : Relays e q₁ q₂) {ev : EdgeEvent}
    (hnext : q₁.next ev = some q₁') : ∃ q₂', q₂.next ev = some q₂' ∧ Relays e q₁' q₂' := by
  obtain ⟨op, x⟩ := ev
  cases op with
  | anext =>
    -- the inner generator is past its loop
    have hcuts : q₁.cuts.isEmpty = false := by simpa using h.inner
    cases x <;> simp [Course.next, hcuts] at hnext
  | yield f =>
    simp only [Course.next] at hnext ⊢
    split at hnext
    · cases hnext
    · rename_i hf
      cases hnext
      rw [if_neg hf]
      exact ⟨_, rfl, h.cut x⟩
  | finish error =>
    simp only [Course.next] at hnext ⊢
    split at hnext
    · cases hnext
    · rename_i herror
      cases hnext
      rw [if_neg herror]
      have hcut := h.cut x
      exact ⟨_, rfl, { hcut with finished := rfl }⟩
  | abort => cases hnext
  | start | opened | intervalPassed | progress | result | aclose | lock | closeAll =>
    cases hnext
    exact ⟨_, rfl, h.cut x⟩

/-- What is left of an inner generator is closed after an interruption of the relay. -/
theorem keeps_closeGenerator {e : Exc} {rest : Exc → EdgeProg Unit} {q₁ : Course}
    (hrest : Keeps kind s (fun q' _ => q'.cuts = []) Course.Halts q₁ (rest .generatorExit))
    (hq : Relays e q₁ q) :
    Keeps kind s (fun q' _ => e ∈ q'.cuts) (fun q' e' => e ∈ q'.cuts ∧ q'.Halts e') q
      (closeGenerator rest) := by
  have hclosed : Keeps kind s (fun q' _ => e ∈ q'.cuts)
      (fun q' e' => e ∈ q'.cuts ∧ (q'.Halts e' ∨ e' = .generatorExit)) q (rest .generatorExit) := by
    refine hrest.simulate (fun q₁ q₂ ev hsim hok => ⟨?_, fun _ hnext => hsim.next hnext⟩)
      (fun _ _ _ hsim _ => hsim.outer) (fun _ _ e' hsim he' => ⟨hsim.outer, ?_⟩) hq
    · rw [Allowed, hsim.asked]
      exact hok
    · exact (hsim.cuts e' he'.1).imp_left fun hmem => ⟨hmem, he'.2⟩
  refine Obeys.attempt_bind hclosed (fun _ _ h => h) fun q' e' he' => ?_
  cases e' with
  | generatorExit => exact he'.1
  | _ => exact ⟨he'.1, he'.2.resolve_right fun h => by cases h⟩

theorem keeps_handlersClose {e : Exc} {rest : Exc → EdgeProg Unit} {q₁ : Course}
    (hrest : Keeps kind s (fun q' _ => q'.cuts = []) Course.Halts q₁ (rest .generatorExit))
    (hq : Relays e q₁ q) :
    Keeps kind s (fun q' _ => e ∈ q'.cuts) Course.Halts q (handlersClose (some rest)) := by
  refine Obeys.attempt_bind (keeps_call (by simp) fun _ => rfl)
    (fun q' _ hq' => ?_) fun q' e' hq' => ?_
  · subst hq'
    exact (keeps_closeGenerator hrest hq).mono (fun _ _ h => h) fun _ _ h => h.2
  · obtain ⟨rfl, hhalts⟩ := hq'
    have hq' : Relays e' q₁ { q with cuts := e' :: q.cuts } :=
      { hq with
        outer := List.mem_cons_self ..
        cuts := fun e'' he'' => (hq.cuts e'' he'').imp_left (List.mem_cons_of_mem _) }
    refine Obeys.attempt_bind keeps_closeAll (fun q₂ _ hq₂ => ?_) fun _ _ h => h.elim
    subst hq₂
    exact Obeys.attempt_bind (keeps_closeGenerator hrest hq') (fun _ _ h => ⟨h, hhalts.2⟩)
      fun _ _ h => ⟨h.1, hhalts.2⟩

theorem keeps_handlersClose_none :
    Keeps kind s (fun q' _ => q' = q) Course.Halts q (handlersClose none) := by
  refine Obeys.attempt_bind (keeps_plain (by simp) fun _ => rfl) (fun _ _ h => h) fun _ _ h => h

theorem keeps_generate (hknown : s.knownModel = true) (hq : q.Fresh) (hasked : q.asked = 0) :
    Keeps kind s (fun q' _ => q'.cuts = []) Course.Halts q (generate s) := by
  unfold generate
  rw [hknown]
  refine Obeys.relay_bind (keeps_startStream hq hasked) (fun q' _ hq' => ?_) (fun q' e hq' => ?_)
    fun q₀ op e rest q' hop hok hnext hrest => ?_
  · refine Obeys.tryFinally (R := fun q₁ _ => q₁ = q') (E := fun _ _ => False) rfl
      (fun q₁ _ hq₁ => ?_)
      fun _ _ h => h.elim
    subst hq₁
    exact keeps_handlersClose_none.mono (fun _ _ h => h ▸ hq') fun _ _ h => h
  · exact keeps_raise_finally (keeps_handlersClose_none.mono (fun _ _ h => h ▸ hq') fun _ _ h => h)
  · obtain ⟨f, rfl⟩ : ∃ f, op = .yield f := by
      cases op with
      | yield f => exact ⟨f, rfl⟩
      | _ => cases hop
    have he := hok.interruption (by simp)
    obtain ⟨q₁, hnext₁, hrest⟩ := hrest .generatorExit
      ⟨⟨.generatorExit, rfl, .inr ⟨by cases kind <;> rfl, rfl⟩⟩, fun u hu => by cases hu⟩
    simp only [Course.next] at hnext hnext₁
    split at hnext
    · cases hnext
    · rename_i hf
      rw [if_neg hf] at hnext₁
      cases hnext
      cases hnext₁
      have hrelays : Relays e (q₀.cut (.error .generatorExit : Except Exc Unit))
          (q₀.cut (.error e : Except Exc Unit)) := by
        refine ⟨List.cons_ne_nil _ _, List.mem_cons_self .., fun e' he' => ?_, rfl, rfl⟩
        rcases List.mem_cons.mp he' with rfl | he'
        · exact .inr rfl
        · exact .inl (List.mem_cons_of_mem _ he')
      exact keeps_raise_finally
        ((keeps_handlersClose hrest hrelays).mono (fun _ _ h => ⟨h, he⟩) fun _ _ h => h)

/-- On each edge. -/
theorem request_obeys {d : Dialect} (hknown : d = .grpc → s.knownModel = true) :
    Keeps kind s (fun q _ => q.cuts = []) Course.Halts {} (request d s) := by
  cases d with
  | openai => exact keeps_streamingResponse rfl (keeps_openaiSse ⟨rfl, rfl⟩ rfl)
  | anthropic => exact keeps_streamingResponse rfl (keeps_anthropicSse ⟨rfl, rfl⟩ rfl)
  | grpc => exact keeps_generate (hknown rfl) ⟨rfl, rfl⟩ rfl

end Obeys

/-! ## What the automaton has seen -/

/-- The stream has answered with a token, or with its end. -/
def isAnswer : EdgeEvent → Bool
  | ⟨.anext, .ok _⟩ => true
  | _ => false

namespace Course

variable {q q' : Course} {ev : EdgeEvent} {tr : List EdgeEvent}

structure Follows (q : Course) (ev : EdgeEvent) (q' : Course) : Prop where
  cuts : ∀ e, e ∈ q'.cuts ↔ e ∈ q.cuts ∨ ev.2 = .error e
  asked : q'.asked = q.asked + (isAnswer ev).toNat
  finished : q'.finished = (q.finished || isFinish ev)
  fresh : ev.1 = .anext → q.Fresh
  frame : ∀ f, ev.1 = .yield f → f.isError = false
  proceeds : ev.1 ≠ .abort
  error : ∀ error, ev.1 = .finish error → error = none

theorem mem_cut {α : Type} (q : Course) (x : Except Exc α) (e : Exc) :
    e ∈ (q.cut x).cuts ↔ e ∈ q.cuts ∨ x = .error e := by
  cases x with
  | ok a => simp [cut]
  | error e' =>
    show e ∈ e' :: q.cuts ↔ _
    rw [List.mem_cons, Except.error.injEq, eq_comm (a := e), or_comm]

theorem cut_asked {α : Type} (q : Course) (x : Except Exc α) : (q.cut x).asked = q.asked := by
  cases x <;> rfl

theorem cut_finished {α : Type} (q : Course) (x : Except Exc α) :
    (q.cut x).finished = q.finished := by
  cases x <;> rfl

/-- An operation that only notes its exception. -/
theorem follows_cut {op : Op} (x : Except Exc op.Res) (hanext : op ≠ .anext)
    (hframe : ∀ f, op = .yield f → f.isError = false) (habort : op ≠ .abort)
    (hfinish : isFinish ⟨op, x⟩ = false) (herror : ∀ error, op = .finish error → error = none) :
    q.Follows ⟨op, x⟩ (q.cut x) where
  cuts := q.mem_cut x
  asked := by
    have hanswer : isAnswer ⟨op, x⟩ = false := by
      cases op with
      | anext => exact absurd rfl hanext
      | _ => rfl
    rw [hanswer]
    exact q.cut_asked x
  finished := by rw [cut_finished, hfinish, Bool.or_false]
  fresh h := absurd h hanext
  frame := hframe
  proceeds := habort
  error := herror

theorem follows_of_next (h : q.next ev = some q') : q.Follows ev q' := by
  obtain ⟨op, x⟩ := ev
  cases op with
  | anext =>
    cases x with
    | ok u =>
      simp only [next] at h
      split at h
      · rename_i hfresh
        cases h
        exact
          { cuts := by simp
            asked := rfl
            finished := by simp [isFinish]
            fresh := fun _ => by simpa [Fresh] using hfresh
            frame := fun _ hop => by cases hop
            proceeds := fun hop => by cases hop
            error := fun _ hop => by cases hop }
      · cases h
    | error e =>
      simp only [next] at h
      split at h
      · rename_i hfresh
        have hfresh : q.Fresh := by simpa [Fresh] using hfresh
        cases h
        exact
          { cuts := by simp [hfresh.1, eq_comm]
            asked := rfl
            finished := by simp [isFinish]
            fresh := fun _ => hfresh
            frame := fun _ hop => by cases hop
            proceeds := fun hop => by cases hop
            error := fun _ hop => by cases hop }
      · cases h
  | yield f =>
    simp only [next] at h
    split at h
    · cases h
    · rename_i hf
      cases h
      refine follows_cut x (fun hop => by cases hop) (fun f' hf' => ?_)
        (fun hop => by cases hop) rfl
        (fun _ hop => by cases hop)
      cases hf'
      simpa using hf
  | finish error =>
    simp only [next] at h
    split at h
    · cases h
    · rename_i herror
      cases h
      exact
        { cuts := q.mem_cut x
          asked := q.cut_asked x
          finished := by simp [isFinish]
          fresh := fun hop => by cases hop
          frame := fun _ hop => by cases hop
          proceeds := fun hop => by cases hop
          error := fun error' herror' => by cases herror'; simpa using herror }
  | abort => cases h
  | start | opened | intervalPassed | progress | result | aclose | lock | closeAll =>
    cases h
    exact follows_cut x (fun hop => by cases hop) (fun _ hop => by cases hop)
      (fun hop => by cases hop) rfl
      (fun _ hop => by cases hop)

theorem foldlM_cons_inv (h : (ev :: tr).foldlM next q = some q') :
    ∃ q₁, q.Follows ev q₁ ∧ tr.foldlM next q₁ = some q' := by
  rw [List.foldlM_cons] at h
  obtain ⟨q₁, hnext, hrest⟩ := Option.bind_eq_some_iff.mp h
  exact ⟨q₁, follows_of_next hnext, hrest⟩

/-- No error frame is sent, the call is not aborted, and the request is finished without an
error. -/
theorem follows_of_foldlM (h : tr.foldlM next q = some q') (hev : ev ∈ tr) :
    ∃ q₁ q₂ : Course, q₁.Follows ev q₂ := by
  induction tr generalizing q with
  | nil => cases hev
  | cons ev' tr ih =>
    obtain ⟨q₁, hfollows, hrest⟩ := foldlM_cons_inv h
    rcases List.mem_cons.mp hev with rfl | hev
    · exact ⟨q, q₁, hfollows⟩
    · exact ih hrest hev

theorem foldlM_cuts (h : tr.foldlM next q = some q') (e : Exc) :
    e ∈ q'.cuts ↔ e ∈ q.cuts ∨ ∃ ev ∈ tr, ev.2 = .error e := by
  induction tr generalizing q with
  | nil =>
    cases h
    simp
  | cons ev tr ih =>
    obtain ⟨q₁, hfollows, hrest⟩ := foldlM_cons_inv h
    rw [ih hrest, hfollows.cuts]
    simp only [List.mem_cons, exists_eq_or_imp, or_assoc]

theorem foldlM_asked (h : tr.foldlM next q = some q') :
    q'.asked = q.asked + tr.countP isAnswer := by
  induction tr generalizing q with
  | nil =>
    cases h
    rfl
  | cons ev tr ih =>
    obtain ⟨q₁, hfollows, hrest⟩ := foldlM_cons_inv h
    rw [ih hrest, hfollows.asked, List.countP_cons, Nat.add_assoc]
    cases isAnswer ev with
    | true => rw [Bool.toNat_true, if_pos rfl, Nat.add_comm 1]
    | false => rw [Bool.toNat_false, if_neg Bool.false_ne_true, Nat.add_comm 0]

/-- After an interruption or the finish the stream is left alone. -/
theorem foldlM_silent (h : tr.foldlM next q = some q') (hq : ¬ q.Fresh) :
    tr.countP isAnswer = 0 := by
  induction tr generalizing q with
  | nil => rfl
  | cons ev tr ih =>
    obtain ⟨q₁, hfollows, hrest⟩ := foldlM_cons_inv h
    have hq₁ : ¬ q₁.Fresh := by
      rintro ⟨hcuts, hfinished⟩
      rw [hfollows.finished, Bool.or_eq_false_iff] at hfinished
      refine hq ⟨List.eq_nil_iff_forall_not_mem.mpr fun e he => ?_, hfinished.1⟩
      have hmem := (hfollows.cuts e).mpr (.inl he)
      rw [hcuts] at hmem
      cases hmem
    have hev : isAnswer ev ≠ true := by
      intro hanswer
      obtain ⟨op, x⟩ := ev
      cases op with
      | anext => exact hq (hfollows.fresh rfl)
      | _ => cases hanswer
    rw [List.countP_cons, ih hrest hq₁, if_neg hev]

theorem answers_before {a b : List EdgeEvent} (h : (a ++ ev :: b).foldlM next q = some q')
    (hev : isFinish ev = true ∨ ∃ e, ev.2 = .error e) :
    a.countP isAnswer = (a ++ ev :: b).countP isAnswer := by
  rw [List.foldlM_append] at h
  obtain ⟨q₁, -, hrest⟩ := Option.bind_eq_some_iff.mp h
  obtain ⟨q₂, hfollows, hb⟩ := foldlM_cons_inv hrest
  have hq₂ : ¬ q₂.Fresh := by
    rintro ⟨hcuts, hfinished⟩
    rcases hev with hfinish | ⟨e, he⟩
    · rw [hfollows.finished, hfinish, Bool.or_true] at hfinished
      cases hfinished
    · have hmem := (hfollows.cuts e).mpr (.inr he)
      rw [hcuts] at hmem
      cases hmem
  have hanswer : isAnswer ev ≠ true := by
    intro hanswer
    obtain ⟨op, x⟩ := ev
    cases op with
    | anext =>
      rcases hev with hfinish | ⟨e, he⟩
      · cases hfinish
      · have he : x = .error e := he
        subst he
        cases hanswer
    | _ => cases hanswer
  rw [List.countP_append, List.countP_cons, foldlM_silent hb hq₂, if_neg hanswer]
  rfl

end Course

/-! ## What is recorded -/

/-- The status that `finish_generation` records. -/
def status (f : App.FinishCall) : Nat := if f.error.isSome then 500 else 200

/-- A stream of this kind and with these tokens, after so many answers: it may have this result. -/
def Stands (kind : StreamKind) (tokens : List String) (answers : Nat)
    (res : Option GenerationResult) :
    Prop :=
  if tokens.length < answers then ∃ pt r, res = some r ∧ Ended kind pt tokens r
  else Going kind (tokens.take answers) res

/-- The events of a request whose generation does not fail by itself, and to which nothing happens
but interruptions by `e`. -/
structure Disconnected (kind : StreamKind) (s : Script) (e : Exc) (tr : List EdgeEvent) : Prop where
  answers : ∀ ev ∈ tr, Disturbs kind e ev
  lasts : ∀ a b u, tr = a ++ ⟨.anext, .ok u⟩ :: b → s.fin = none ∨
    a.countP isAnswer < s.tokens.length
  result : ∀ a b error res, tr = a ++ ⟨.finish error, .ok res⟩ :: b →
    Stands kind s.tokens (a.countP isAnswer) res

section Recorded

variable {kind : StreamKind} {d : Dialect} {s : Script} {e : Exc} {env : EdgeEnv}

theorem Disconnected.course (h : Disconnected kind s e ((request d s).run env []).1)
    (he : e.isException = false) (hknown : d = .grpc → s.knownModel = true) :
    ∃ q, ((request d s).run env []).1.foldlM Course.next {} = some q ∧
      (((request d s).run env []).2 = .ok () → q.cuts = []) ∧
      ∀ e', ((request d s).run env []).2 = .error e' → q.Halts e' := by
  have hok : ∀ a ev b q, ((request d s).run env []).1 = a ++ ev :: b →
      a.foldlM Course.next {} = some q → Allowed kind s q ev := by
    intro a ev b q hsplit hq
    refine ⟨⟨e, he, h.answers ev ?_⟩, fun u hu => ?_⟩
    · rw [hsplit]
      simp
    · subst hu
      rw [Course.foldlM_asked hq, Nat.zero_add]
      exact h.lasts a b u hsplit
  obtain ⟨q, hfold, hend⟩ := (request_obeys hknown).run hok
  refine ⟨q, hfold, fun hr => ?_, fun e' hr => ?_⟩
  · rw [hr] at hend
    exact hend
  · rw [hr] at hend
    exact hend

/-- A request that was served is finished once, and one that was not is not finished. -/
theorem Disconnected.finishes (h : Disconnected kind s e ((request d s).run env []).1) :
    ((request d s).run env []).1.countP isFinish =
      ((request d s).run env []).1.countP isServed := by
  have hbalance := (weighs_request d s).run env []
  rw [sum_balance] at hbalance
  have hpulled : ((request d s).run env []).1.countP isUnpulled = 0 := by
    refine List.countP_eq_zero.mpr fun ev hev hunpulled => ?_
    obtain ⟨op, x⟩ := ev
    cases op with
    | opened =>
      rcases h.answers _ hev with hcalm | ⟨hawait, -⟩
      · cases hcalm
        cases hunpulled
      · cases kind <;> cases hawait
    | _ => cases hunpulled
  omega

theorem Disconnected.propagates {q : Course}
    (h : Disconnected kind s e ((request d s).run env []).1)
      (hfold : ((request d s).run env []).1.foldlM Course.next {} = some q)
      (hok : ((request d s).run env []).2 = .ok () → q.cuts = [])
      (herror : ∀ e', ((request d s).run env []).2 = .error e' → q.Halts e') {op : Op}
      (hcut : ⟨op, .error e⟩ ∈ ((request d s).run env []).1) :
    ((request d s).run env []).2 = .error e := by
  have hmem : e ∈ q.cuts := (Course.foldlM_cuts hfold e).mpr (.inr ⟨_, hcut, rfl⟩)
  cases hr : ((request d s).run env []).2 with
  | ok u =>
    rw [hok hr] at hmem
    cases hmem
  | error e' =>
    rcases (Course.foldlM_cuts hfold e').mp (herror e' hr).1 with hnil | ⟨ev, hev, he'⟩
    · cases hnil
    · obtain ⟨q₁, q₂, hfollows⟩ := Course.follows_of_foldlM hfold hev
      rw [(h.answers ev hev).error hfollows.proceeds he']

theorem Disconnected.finish (h : Disconnected kind s e ((request d s).run env []).1) {q : Course}
    (hfold : ((request d s).run env []).1.foldlM Course.next {} = some q)
    (hserved : ((request d s).run env []).1.countP isServed = 1) :
    ∃ res, ((request d s).run env []).1.filter isFinish = [⟨.finish none, .ok res⟩] ∧
      Stands kind s.tokens (((request d s).run env []).1.countP isAnswer) res := by
  have hfinishes := h.finishes
  rw [hserved] at hfinishes
  obtain ⟨ev, hev, hfinish⟩ := List.countP_pos_iff.mp (hfinishes ▸ Nat.one_pos)
  obtain ⟨q₁, q₂, hfollows⟩ := Course.follows_of_foldlM hfold hev
  have hdisturbs := h.answers ev hev
  obtain ⟨a, b, hsplit⟩ := List.append_of_mem hev
  obtain ⟨op, x⟩ := ev
  cases op with
  | finish error =>
    have herror := hfollows.error error rfl
    subst herror
    rcases hdisturbs with ⟨res, hres⟩ | ⟨hawait, -⟩
    · have hres : x = .ok res := hres
      subst hres
      have hresult := h.result a b none res hsplit
      rw [hsplit] at hfold hfinishes
      rw [Course.answers_before hfold (.inl rfl), ← hsplit] at hresult
      refine ⟨res, ?_, hresult⟩
      rw [List.countP_append, List.countP_cons, if_pos hfinish] at hfinishes
      have ha : a.filter isFinish = [] :=
        List.filter_eq_nil_iff.mpr (List.countP_eq_zero.mp (by omega))
      have hb : b.filter isFinish = [] :=
        List.filter_eq_nil_iff.mpr (List.countP_eq_zero.mp (by omega))
      rw [hsplit, List.filter_append, List.filter_cons_of_pos rfl, ha, hb]
      rfl
    · cases kind <;> cases hawait
  | _ => cases hfinish

/-- Without an error, a result of a disconnect or none is recorded as a disconnect. -/
theorem outcome_cancelled {f : App.FinishCall} (herror : f.error = none)
    (hresult : ∀ r ∈ f.result, r.finishReason = .cancelled) : f.outcome = .cancelled := by
  have hcancelled : f.cancelled = true := by
    rw [App.FinishCall.cancelled, herror, Option.isNone_none, Bool.true_and, Option.all_eq_true]
    intro r hr
    rw [hresult r hr]
    rfl
  rw [App.FinishCall.outcome, if_pos hcancelled]

theorem outcome_ok {f : App.FinishCall} {r : GenerationResult} (herror : f.error = none)
    (hresult : f.result = some r) (hcomplete : r.finishReason.complete = true) :
    f.outcome = .ok := by
  have hcancelled : f.cancelled = false := by
    rw [App.FinishCall.cancelled, herror, hresult, Option.isNone_none, Bool.true_and,
      Option.all_some]
    cases hfinish : r.finishReason with
    | cancelled =>
      rw [hfinish] at hcomplete
      cases hcomplete
    | _ => rfl
  rw [App.FinishCall.outcome, hcancelled, herror]
  rfl

/-- For both kinds of streams and on each edge, wherever an await of a request is interrupted (other
than within `__anext__` of a remote stream): the request ends with that interruption, it sends no
error frame and does not abort its call. If it was started, it is finished once, with status 200: as
a disconnect, or, when the stream had come to its end before, as what the stream has told of its
end. -/
theorem disconnect_recorded (he : e.isException = false) (hknown : d = .grpc → s.knownModel = true)
    (h : Disconnected kind s e ((request d s).run env []).1) {before after : List EdgeEvent}
      {op : Op} (hcut : ((request d s).run env []).1 = before ++ ⟨op, .error e⟩ :: after) :
    ((request d s).run env []).2 = .error e ∧
    (∀ ev ∈ ((request d s).run env []).1, ev.1 ≠ .abort ∧ ∀ f, ev.1 = .yield f →
      f.isError = false) ∧ (((request d s).run env []).1.countP isServed = 0 ∧
        ((request d s).run env []).1.filter isFinish = [] ∨
      ((request d s).run env []).1.countP isServed = 1 ∧
        ∃ res, ((request d s).run env []).1.filter isFinish = [⟨.finish none, .ok res⟩] ∧
          ∀ f : App.FinishCall, f.error = none → f.result = res → status f = 200 ∧
            if s.tokens.length < before.countP isAnswer then
              ∃ pt r, res = some r ∧ Ended kind pt s.tokens r ∧
                (r.finishReason.complete = true → f.outcome = .ok)
            else f.outcome = .cancelled) := by
  obtain ⟨q, hfold, hok, herror⟩ := h.course he hknown
  have hmem : ⟨op, .error e⟩ ∈ ((request d s).run env []).1 := by
    rw [hcut]
    simp
  have hbefore : before.countP isAnswer = ((request d s).run env []).1.countP isAnswer := by
    have hfold := hfold
    rw [hcut] at hfold ⊢
    exact Course.answers_before hfold (.inr ⟨e, rfl⟩)
  refine ⟨h.propagates hfold hok herror hmem, fun ev hev => ?_, ?_⟩
  · obtain ⟨q₁, q₂, hfollows⟩ := Course.follows_of_foldlM hfold hev
    exact ⟨hfollows.proceeds, hfollows.frame⟩
  · have hle := served_le_one d s env
    rcases Nat.le_one_iff_eq_zero_or_eq_one.mp hle with hserved | hserved
    · have hfinishes := h.finishes
      rw [hserved] at hfinishes
      exact .inl ⟨hserved, List.filter_eq_nil_iff.mpr (List.countP_eq_zero.mp hfinishes)⟩
    · obtain ⟨res, hfinish, hstands⟩ := h.finish hfold hserved
      refine .inr ⟨hserved, res, hfinish, fun f hnone hres => ⟨by rw [status, hnone]; rfl, ?_⟩⟩
      rw [hbefore]
      unfold Stands at hstands
      split at hstands
      · rename_i hended
        obtain ⟨pt, r, hr, hstream⟩ := hstands
        rw [if_pos hended]
        exact ⟨pt, r, hr, hstream, outcome_ok hnone (hres.trans hr)⟩
      · rename_i hgoing
        rw [if_neg hgoing]
        exact outcome_cancelled hnone (hres ▸ hstands.cancelled)

end Recorded

/-- The client is gone when the first token is sent; the close of the stream is not interrupted. -/
def goneAtToken : EdgeEnv := fun _ op =>
  match op with
  | .yield _ => .error .cancelledError
  | .opened => .ok true
  | .intervalPassed => .ok false
  | .result | .finish _ => .ok (some ⟨"a", .cancelled, 3, 1⟩)
  | .abort => .error (.other "")
  | .start | .anext | .progress _ | .aclose | .lock | .closeAll => .ok ()

/-- Of two tokens one is taken, and the stream is closed. -/
def oneOfTwo : List Stream.Ev :=
  [.anext] ++ .replicate 8 .work ++ [.callback, .getResume, .aclose, .acloseResume true]

theorem goneAtToken_disturbs (past : List EdgeEvent) (op : Op) :
    Disturbs .queue .cancelledError ⟨op, goneAtToken past op⟩ := by
  cases op with
  | yield f => exact .inr ⟨rfl, rfl⟩
  | opened => exact .inl rfl
  | abort => exact .inl ⟨_, rfl, rfl⟩
  | _ => exact .inl ⟨_, rfl⟩

theorem oneOfTwo_going : Going .queue ["a"] (some ⟨"a", .cancelled, 3, 1⟩) := by
  have hexec : (exec Stream.step (Stream.init Stream.twoTokensProducer 3 1) oneOfTwo).map
      (fun t => (t.received.map (·.text), t.result, t.consumer)) =
        some (["a"], some ⟨"a", .cancelled, 3, 1⟩, .idle) := by
    decide +kernel
  obtain ⟨t, hrun, ht⟩ := run_of_exec_map hexec
  obtain ⟨hreceived, ht⟩ := Prod.mk.inj ht
  obtain ⟨hresult, hconsumer⟩ := Prod.mk.inj ht
  rw [← hreceived, ← hresult]
  exact .queue hrun (by rw [hconsumer]; rfl)

/-- A request of the gRPC edge, on a local stream. -/
theorem disconnect_recorded_goneAtToken :
    let out := (request .grpc ⟨["a", "b"], none, 3, true⟩).run goneAtToken []
    out.2 = .error .cancelledError ∧ ∃ res, out.1.filter isFinish = [⟨.finish none, .ok res⟩] ∧
      ∀ f : App.FinishCall, f.error = none → f.result = res → status f = 200 ∧
        f.outcome = .cancelled := by
  intro out
  have hfold : (out.1.foldlM Course.next {}).isSome = true := by decide +kernel
  obtain ⟨q, hfold⟩ := Option.isSome_iff_exists.mp hfold
  have hanswers : out.1.countP isAnswer = 1 := by decide +kernel
  have hserved : out.1.countP isServed = 1 := by decide +kernel
  have hdisturbs : ∀ a ev b, out.1 = a ++ ev :: b → ev.2 = goneAtToken a ev.1 := by
    intro a ev b hsplit
    exact run_append_cons hsplit
  have h : Disconnected .queue ⟨["a", "b"], none, 3, true⟩ .cancelledError out.1 := by
    refine ⟨fun ev hev => ?_, fun _ _ _ _ => .inl rfl, fun a b error res hsplit => ?_⟩
    · obtain ⟨a, b, hsplit⟩ := List.append_of_mem hev
      have hev := goneAtToken_disturbs a ev.1
      rw [← hdisturbs a ev b hsplit] at hev
      exact hev
    · have hres : res = some ⟨"a", .cancelled, 3, 1⟩ := Except.ok.inj (hdisturbs a _ b hsplit)
      rw [hsplit] at hfold hanswers
      rw [Course.answers_before hfold (.inl rfl), hanswers, hres]
      exact oneOfTwo_going
  have hyield : ∃ ev ∈ out.1, ev.1 = .yield (.grpc (.text "a")) := by decide +kernel
  obtain ⟨⟨op, x⟩, hev, hop⟩ := hyield
  have hop : op = .yield (.grpc (.text "a")) := hop
  subst hop
  obtain ⟨before, after, hcut⟩ := List.append_of_mem hev
  have hx : x = .error .cancelledError := hdisturbs before _ after hcut
  subst hx
  obtain ⟨hend, -, hrecorded⟩ := disconnect_recorded rfl (fun _ => rfl) h hcut
  rcases hrecorded with ⟨hnone, -⟩ | ⟨-, res, hfinish, hcall⟩
  · rw [hserved] at hnone
    cases hnone
  · refine ⟨hend, res, hfinish, fun f herror hresult => ?_⟩
    obtain ⟨hstatus, houtcome⟩ := hcall f herror hresult
    have hone : before.countP isAnswer = 1 := by
      rw [hcut] at hfold hanswers
      rw [Course.answers_before hfold (.inr ⟨_, rfl⟩), hanswers]
    rw [hone, if_neg (by decide)] at houtcome
    exact ⟨hstatus, houtcome⟩

/-- The client is gone when the end marker is sent. -/
def goneAtDone : EdgeEnv := fun past op =>
  match op with
  | .yield (.openai .done) => .error .generatorExit
  | op => calm ⟨"ab", .length, 3, 2⟩ past op

/-- The task is cancelled while the remote stream waits for the upstream. -/
def goneInAnext : EdgeEnv := fun past op =>
  match op with
  | .anext => .error (.generationFailed "")
  | op => calm ⟨"", .error, 0, 0⟩ past op

/-- What becomes of a disconnect depends on the await and on the backend. After the end of the
stream it is recorded as the normal end. Within `__anext__` of a remote stream it becomes a failure:
an error frame is sent, and the request is recorded with an error. -/
theorem disconnects_differ :
    let late := (request .openai ⟨["a", "b"], none, 3, true⟩).run goneAtDone []
    let remote := (request .openai ⟨["a"], none, 0, true⟩).run goneInAnext []
    (Ended .queue 3 ["a", "b"] ⟨"ab", .length, 3, 2⟩ ∧ late.2 = .error .generatorExit ∧
      (late.1.filter isFinish).map (·.1) = [.finish none] ∧
      ∀ f : App.FinishCall, f.error = none → f.result = some ⟨"ab", .length, 3, 2⟩ →
        f.outcome = .ok) ∧
    (exec (RemoteStream.step Numbers.exact 0 true) {} [.anext, .refused (.other "")]).any
      (fun t => t.answer matches some (.raised (.generationFailed ""))) = true ∧
    remote.2 = .ok () ∧
    .yield (.openai (.error "generation failed" "server_error")) ∈ remote.1.map (·.1) ∧
    (remote.1.filter isFinish).map (·.1) = [.finish (some (.generationFailed ""))] ∧
    ∀ f : App.FinishCall, f.error = some (.generationFailed "") → status f = 500 ∧
      f.outcome = .error := by
  refine ⟨⟨twoTokens_ended, by decide +kernel, by decide +kernel, fun f herror hresult => ?_⟩,
    by decide +kernel, by decide +kernel, by decide +kernel, by decide +kernel, fun f herror => ?_⟩
  · exact outcome_ok herror hresult rfl
  · rw [status, App.FinishCall.outcome, App.FinishCall.cancelled, herror]
    exact ⟨rfl, rfl⟩

end Edge
end InferenceEngine
