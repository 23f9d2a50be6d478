import InferenceEngine.Edge.Generators

/-!
# Edge.FinishOnce

`finish_generation` on the three streaming edges, for every stream and whatever the transport does:
however the response generator is left (at a yield, at an await, at the await of `aclose`, after its
end), a generator that was started runs it once (`weighs_sse`, `weighs_stream`). The two HTTP edges
hand their generator to a transport that may never start it.

* `finished_once_iff`: a request that was started is finished once exactly when its edge is the gRPC
  one or its response was pulled.
-/

namespace InferenceEngine
namespace Edge

open Effect Prog

/-- `finish_generation` was executed. -/
def isFinish : EdgeEvent → Bool
  | ⟨.finish _, _⟩ => true
  | _ => false

/-- `start_generation` was called. -/
def isStart : EdgeEvent → Bool
  | ⟨.start, _⟩ => true
  | _ => false

/-- `start_generation` has returned a `Served`. -/
def isServed : EdgeEvent → Bool
  | ⟨.start, .ok _⟩ => true
  | _ => false

/-- The response was dropped before its first pull. -/
def isUnpulled : EdgeEvent → Bool
  | ⟨.opened, .ok true⟩ => false
  | ⟨.opened, _⟩ => true
  | _ => false

/-- Finished requests and responses that were never pulled count for, requests started against. -/
def balance (ev : EdgeEvent) : ℤ :=
  (isFinish ev).toInt - (isServed ev).toInt + (isUnpulled ev).toInt

/-- Operations that are neither the start nor the finish of a request, nor the first pull. -/
def Op.isPlain : Op → Bool
  | .start | .opened | .finish _ => false
  | _ => true

/-- A weight that plain operations do not have. -/
def Neutral (w : EdgeEvent → ℤ) : Prop := ∀ op r, op.isPlain = true → w ⟨op, r⟩ = 0

theorem balance_neutral : Neutral balance := by
  intro op r hop
  cases op <;> first | rfl | cases hop

section Plain

variable {w : EdgeEvent → ℤ} (hw : Neutral w)

include hw

theorem weighs_plain (op : Op) (hop : op.isPlain = true) : (call op : EdgeProg op.Res).Weighs w 0 :=
  weighs_call fun r => hw op r hop

theorem weighs_yield (f : Frame) : (yield f).Weighs w 0 := weighs_plain hw _ rfl

theorem weighs_asyncFor {body : Nat → String → EdgeProg Unit} {fin : Option Exc}
    (hbody : ∀ n text, (body n text).Weighs w 0) (tokens : List String) (n : Nat) :
    (asyncFor body fin n tokens).Weighs w 0 := by
  induction tokens generalizing n with
  | nil =>
    refine (weighs_plain hw .anext rfl).bind fun _ => ?_
    cases fin <;> rfl
  | cons text rest ih =>
    exact (weighs_plain hw .anext rfl).bind fun _ => (hbody _ _).bind fun _ => ih _

theorem weighs_feed (n : Nat) : (feed n).Weighs w 0 := by
  refine (weighs_plain hw .intervalPassed rfl).bind fun passed => ?_
  cases passed with
  | true => exact weighs_plain hw _ rfl
  | false => rfl

variable {c : ℤ} (hc : ∀ error r, w ⟨.finish error, r⟩ = c)

include hc

theorem weighs_close (error : Option Exc) : (close error).Weighs w c := by
  have := (weighs_plain hw .aclose rfl).tryFinally (weighs_call (hc error))
  rwa [Int.zero_add] at this

theorem weighs_sse {body handler : EdgeProg Unit} (hbody : body.Weighs w 0)
    (hhandler : handler.Weighs w 0) : (sse body handler).Weighs w c := by
  rw [← Int.zero_add c]
  refine hbody.attempt_bind fun r => ?_
  cases r with
  | ok _ => exact weighs_close hw hc none
  | error e =>
    rw [← Int.zero_add c]
    simp only
    split
    · exact hhandler.tryFinally (weighs_close hw hc _)
    · exact (weighs_raise e).tryFinally (weighs_close hw hc _)

theorem weighs_openaiSse (s : Script) : (openaiSse s).Weighs w c := by
  refine weighs_sse hw hc ?_ ?_
  · refine (weighs_yield hw _).bind fun _ => ?_
    refine (weighs_asyncFor hw (fun n text => ?_) _ _).bind fun _ => ?_
    · exact (weighs_yield hw _).bind fun _ => weighs_feed hw n
    · refine (weighs_plain hw .result rfl).bind fun result => ?_
      exact (weighs_yield hw _).bind fun _ => weighs_yield hw _
  · exact (weighs_yield hw _).bind fun _ => weighs_yield hw _

theorem weighs_anthropicSse (s : Script) : (anthropicSse s).Weighs w c := by
  refine weighs_sse hw hc ?_ (weighs_yield hw _)
  refine (weighs_yield hw _).bind fun _ => (weighs_yield hw _).bind fun _ =>
    (weighs_yield hw _).bind fun _ => ?_
  refine (weighs_asyncFor hw (fun n text => ?_) _ _).bind fun emitted => ?_
  · exact (weighs_yield hw _).bind fun _ => weighs_feed hw n
  · refine (weighs_plain hw .result rfl).bind fun result => ?_
    exact (weighs_yield hw _).bind fun _ => (weighs_yield hw _).bind fun _ => weighs_yield hw _

theorem weighs_drainAndFinish (error : Option Exc) : (drainAndFinish error).Weighs w c := by
  rw [← Int.zero_add c]
  refine (weighs_plain hw .aclose rfl).attempt_bind fun r => ?_
  cases r with
  | ok _ => exact weighs_call (hc error)
  | error e =>
    simp only
    split
    · exact weighs_call (hc error)
    · rw [← Int.add_zero c]
      refine (weighs_call (hc error)).attempt_bind fun f => ?_
      cases f with
      | ok _ => exact weighs_raise e
      | error e' =>
        simp only
        split <;> exact weighs_raise _

theorem weighs_streamEnd (error : Option Exc) : (streamEnd error).Weighs w c := by
  refine (weighs_drainAndFinish hw hc error).bind fun result => ?_
  simp only
  split
  · exact (weighs_plain hw .abort rfl).bind fun _ => weighs_yield hw _
  · exact weighs_yield hw _

theorem weighs_stream (s : Script) : (stream s).Weighs w c := by
  rw [← Int.zero_add c]
  refine (weighs_asyncFor hw (fun _ _ => weighs_yield hw _) _ _).attempt_bind fun r => ?_
  split
  · exact weighs_streamEnd hw hc none
  · exact weighs_streamEnd hw hc _
  · exact (weighs_drainAndFinish hw hc none).bind fun _ => weighs_raise _

end Plain

theorem weighs_closeGenerator {w : EdgeEvent → ℤ} {m : ℤ} {rest : Exc → EdgeProg Unit}
    (h : ∀ e, (rest e).Weighs w m) : (closeGenerator rest).Weighs w m := by
  rw [← Int.add_zero m]
  refine (h _).attempt_bind fun r => ?_
  split
  · rfl
  · rfl
  · exact weighs_raise _

/-- Whatever is left of `_stream` is run when its handler is closed. -/
theorem weighs_handlersClose {w : EdgeEvent → ℤ} (hw : Neutral w) {m : ℤ}
    {rest : Exc → EdgeProg Unit} (h : ∀ e, (rest e).Weighs w m) :
    (handlersClose (some rest)).Weighs w m := by
  have hclose := weighs_closeGenerator h
  rw [← Int.zero_add m]
  refine (weighs_plain hw .lock rfl).attempt_bind fun r => ?_
  cases r with
  | ok _ => exact hclose
  | error e =>
    rw [← Int.zero_add m]
    refine (weighs_plain hw .closeAll rfl).attempt_bind fun _ => ?_
    rw [← Int.add_zero m]
    exact hclose.attempt_bind fun _ => weighs_raise e

theorem weighs_handlersClose_none {w : EdgeEvent → ℤ} (hw : Neutral w) :
    (handlersClose none).Weighs w 0 := by
  rw [← Int.zero_add 0]
  refine (weighs_plain hw .lock rfl).attempt_bind fun r => ?_
  cases r with
  | ok _ => rfl
  | error e => exact weighs_raise e

theorem weighs_startStream {w : EdgeEvent → ℤ} (hw : Neutral w) {n c : ℤ}
    (hc : ∀ error r, w ⟨.finish error, r⟩ = c) (hok : ∀ u, w ⟨.start, .ok u⟩ + c = n)
    (herr : ∀ e, w ⟨.start, .error e⟩ = n) (s : Script) : (startStream s).Weighs w n := by
  intro r
  cases r with
  | ok u =>
    rw [show n - w ⟨.start, .ok u⟩ = c by have := hok u; omega]
    exact weighs_stream hw hc s
  | error e =>
    rw [herr, Int.sub_self]
    cases e <;> first | exact weighs_plain hw _ rfl | rfl

theorem weighs_generate {w : EdgeEvent → ℤ} (hw : Neutral w) {n : ℤ} {s : Script}
    (h : (startStream s).Weighs w n) (hs : s.knownModel = true ∨ n = 0) :
    (generate s).Weighs w n := by
  refine Weighs.relay_bind ?_ (fun r => ?_) (fun e rest m hrest => ?_) ?_
  · intro op r hy
    exact hw op r (by cases op <;> first | rfl | cases hy)
  · exact (weighs_ofExcept r).tryFinally (weighs_handlersClose_none hw)
  · rw [← Int.zero_add m]
    exact (weighs_raise e).tryFinally (weighs_handlersClose hw hrest)
  · cases hk : s.knownModel with
    | true => exact h
    | false =>
      obtain rfl : n = 0 := hs.resolve_left (by simp [hk])
      exact (weighs_plain hw .abort rfl).bind fun _ => h

theorem weighs_streamingResponse {w : EdgeEvent → ℤ} {g : EdgeProg Unit} {n c : ℤ}
    (hg : g.Weighs w c) (herr : ∀ e, w ⟨.start, .error e⟩ = n)
    (hpulled : ∀ u, w ⟨.start, .ok u⟩ + w ⟨.opened, .ok true⟩ + c = n)
    (hdropped : ∀ u r, isUnpulled ⟨.opened, r⟩ = true → w ⟨.start, .ok u⟩ + w ⟨.opened, r⟩ = n) :
    (streamingResponse g).Weighs w n := by
  intro r
  cases r with
  | error e => rw [herr, Int.sub_self]; rfl
  | ok u =>
    intro pulled
    have hrest : isUnpulled ⟨.opened, pulled⟩ = true →
        n - w ⟨.start, .ok u⟩ - w ⟨.opened, pulled⟩ = 0 := by
      intro h
      have := hdropped u pulled h
      omega
    cases pulled with
    | error e => exact hrest rfl
    | ok b =>
      cases b with
      | false => exact hrest rfl
      | true =>
        rw [show n - w ⟨.start, .ok u⟩ - w ⟨.opened, .ok true⟩ = c by have := hpulled u; omega]
        exact hg

theorem weighs_request (d : Dialect) (s : Script) : (request d s).Weighs balance 0 := by
  have hc : ∀ error r, balance ⟨.finish error, r⟩ = 1 := fun _ _ => rfl
  have hdropped : ∀ (u : Op.start.Res) r, isUnpulled ⟨.opened, r⟩ = true →
      balance ⟨.start, .ok u⟩ + balance ⟨.opened, r⟩ = 0 := by
    intro u r h
    simp [balance, isFinish, isServed, h, Bool.toInt]
    simp [isUnpulled]
  cases d with
  | openai =>
    exact weighs_streamingResponse (weighs_openaiSse balance_neutral hc s) (fun _ => rfl)
      (fun _ => rfl) hdropped
  | anthropic =>
    exact weighs_streamingResponse (weighs_anthropicSse balance_neutral hc s) (fun _ => rfl)
      (fun _ => rfl) hdropped
  | grpc =>
    exact weighs_generate balance_neutral
      (weighs_startStream balance_neutral hc (fun _ => rfl) (fun _ => rfl) s) (.inr rfl)

/-- The weight that counts the events that satisfy `q`. -/
def tally (q : EdgeEvent → Bool) (ev : EdgeEvent) : ℤ := (q ev).toInt

theorem sum_tally (q : EdgeEvent → Bool) (tr : List EdgeEvent) :
    (tr.map (tally q)).sum = tr.countP q := by
  induction tr with
  | nil => rfl
  | cons ev tr ih =>
    simp only [List.map_cons, List.sum_cons, ih, List.countP_cons, tally]
    cases q ev with
    | false => simp
    | true => simp; omega

theorem sum_balance (tr : List EdgeEvent) : (tr.map balance).sum =
    (tr.countP isFinish : ℤ) - tr.countP isServed + tr.countP isUnpulled := by
  rw [← sum_tally, ← sum_tally, ← sum_tally]
  induction tr with
  | nil => rfl
  | cons ev tr ih =>
    simp only [List.map_cons, List.sum_cons, ih, balance, tally]
    omega

theorem tally_neutral {q : EdgeEvent → Bool}
    (hq : ∀ op r, op.isPlain = true → q ⟨op, r⟩ = false) : Neutral (tally q) := by
  intro op r hop
  simp [tally, hq op r hop]

theorem isStart_neutral : Neutral (tally isStart) :=
  tally_neutral fun op _ hop => by cases op <;> first | rfl | cases hop

theorem isUnpulled_neutral : Neutral (tally isUnpulled) :=
  tally_neutral fun op _ hop => by cases op <;> first | rfl | cases hop

/-- The response of `Generate` needs no first pull by the transport. -/
theorem grpc_pulled (s : Script) (env : EdgeEnv) :
    ((request .grpc s).run env []).1.countP isUnpulled = 0 := by
  have hw := weighs_generate isUnpulled_neutral
    (weighs_startStream (n := 0) isUnpulled_neutral (fun _ _ => rfl) (fun _ => rfl)
      (fun _ => rfl) s)
    (.inr rfl)
  have hrun := hw.run env []
  rw [sum_tally] at hrun
  exact_mod_cast hrun

/-- `Generate` of an unknown model aborts the call before it does anything else. -/
theorem generate_unknown {s : Script} (hs : s.knownModel = false) :
    generate s = .perform .abort fun r =>
      match r with
      | .ok _ => generate { s with knownModel := true }
      | .error e => tryFinally (raise e) (handlersClose none) := by
  have habort : abort.bind (fun _ => startStream s) = .perform .abort fun r =>
      match r with
      | .ok _ => startStream s
      | .error e => raise e := by
    refine congrArg (Prog.perform Op.abort) (funext fun r => ?_)
    cases r <;> rfl
  simp only [generate, hs, Bool.not_false, if_true, Bool.not_true, Bool.false_eq_true, if_false,
    bind_eq]
  rw [habort]
  simp only [relay, Prog.bind, Op.isYield, Bool.false_eq_true, if_false]
  congr 1
  funext r
  cases r <;> rfl

theorem starts_le_one (d : Dialect) (s : Script) (env : EdgeEnv) (past : List EdgeEvent) :
    ((request d s).run env past).1.countP isStart ≤ 1 := by
  have hc : ∀ error r, tally isStart ⟨.finish error, r⟩ = 0 := fun _ _ => rfl
  have hknown {s : Script} (hs : s.knownModel = true) (past : List EdgeEvent) :
      ((generate s).run env past).1.countP isStart = 1 := by
    have hrun := (weighs_generate isStart_neutral (weighs_startStream (n := 1) isStart_neutral hc
      (fun _ => rfl) (fun _ => rfl) s) (.inl hs)).run env past
    rw [sum_tally] at hrun
    exact_mod_cast hrun
  have hresponse {g : EdgeProg Unit} (hg : g.Weighs (tally isStart) 0) :
      ((streamingResponse g).run env past).1.countP isStart ≤ 1 := by
    have hrun := (weighs_streamingResponse (n := 1) hg (fun _ => rfl) (fun _ => rfl)
      fun _ _ _ => rfl).run env past
    rw [sum_tally] at hrun
    omega
  cases d with
  | openai => exact hresponse (weighs_openaiSse isStart_neutral hc s)
  | anthropic => exact hresponse (weighs_anthropicSse isStart_neutral hc s)
  | grpc =>
    cases hs : s.knownModel with
    | true => exact (hknown hs past).le
    | false =>
      show ((generate s).run env past).1.countP isStart ≤ 1
      rw [generate_unknown hs]
      simp only [Prog.run, List.countP_cons]
      cases env past .abort with
      | ok u => simp only [hknown (s := { s with knownModel := true }) rfl]; rfl
      | error e =>
        have hrun := ((weighs_raise (α := Unit) e).tryFinally
          (weighs_handlersClose_none isStart_neutral)).run env (past ++ [⟨.abort, .error e⟩])
        rw [sum_tally] at hrun
        have : isStart ⟨.abort, .error e⟩ = false := rfl
        simp only [this, Bool.false_eq_true, if_false]
        omega

theorem served_le_one (d : Dialect) (s : Script) (env : EdgeEnv) :
    ((request d s).run env []).1.countP isServed ≤ 1 := by
  refine le_trans (List.countP_mono_left fun ev _ h => ?_) (starts_le_one d s env [])
  obtain ⟨op, r⟩ := ev
  cases op <;> first | rfl | simp [isServed] at h

/-- **A started generation is finished once, if its response is pulled.** On every edge, for every
stream and every behaviour of the transport, the stores and the tasks, `start_generation` returns at
most one `Served` for a request, and `finish_generation` is executed exactly as often as that, if
and only if the edge is the gRPC one or the response was not dropped before its first pull. -/
theorem finished_once_iff (d : Dialect) (s : Script) (env : EdgeEnv) :
    ((request d s).run env []).1.countP isServed ≤ 1 ∧
      (((request d s).run env []).1.countP isFinish =
          ((request d s).run env []).1.countP isServed ↔
        d = .grpc ∨ ∀ ev ∈ ((request d s).run env []).1, isUnpulled ev = false) := by
  have hbal := (weighs_request d s).run env []
  rw [sum_balance] at hbal
  constructor
  · exact served_le_one d s env
  · have hnone : (∀ ev ∈ ((request d s).run env []).1, isUnpulled ev = false) ↔
        ((request d s).run env []).1.countP isUnpulled = 0 := by
      simp [List.countP_eq_zero]
    rw [hnone]
    constructor
    · intro heq
      right
      omega
    · rintro (rfl | hpulled)
      · have := grpc_pulled s env
        omega
      · omega

/-- The client is gone before the transport pulls the first frame. -/
def droppedUnpulled : EdgeEnv := fun _ op =>
  match op with
  | .opened => .ok false
  | .intervalPassed => .ok false
  | .result | .finish _ => .ok none
  | .start | .yield _ | .anext | .progress _ | .aclose | .abort | .lock | .closeAll => .ok ()

/-- One `Served`, and no `finish_generation`. -/
theorem droppedUnpulled_leaks :
    ((request .openai ⟨["a"], none, 1, true⟩).run droppedUnpulled []).1.countP isServed = 1 ∧
      ((request .openai ⟨["a"], none, 1, true⟩).run droppedUnpulled []).1.countP isFinish = 0 := by
  decide

end Edge
end InferenceEngine
