import InferenceEngine.Inference.ThreadedWorkers

/-!
# Inference.StreamCut

How a generation ended, as its result says it, when others may close its stream: the producer came
to its own end (`FinishReason.complete`), or the generation was cut off.

A generation is cut off by three steps (`cuts`): the worker sees the cancellation and closes the
producer, the producer itself ends as cancelled or failed without raising, or `aclose` comes back
from its join before the consumer has read the terminal.

* `complete_iff`: a consumer that was told the end of its stream has a result, and unless it was
  told an error that is complete exactly when no step of the run has cut the stream.
-/

namespace InferenceEngine

open Lts

/-- Did the producer come to its own end? -/
def FinishReason.complete : FinishReason → Bool
  | .stop | .length => true
  | .cancelled | .error => false

/-- The consumer is told an error, or a complete end. -/
def Terminal.fair (t : Terminal) : Bool := t.error.isSome || t.finish.complete

namespace Stream

/-- Does the step cut the generation off? -/
def cuts (s : Stream) : Ev → Bool
  | .work =>
    match s.worker with
    | .close => true
    | .next => s.script.isEmpty && !s.producer.fin.terminal.fair
    | _ => false
  | .stopEarly e => !e.terminal.fair
  | .acloseResume _ => s.result.isNone
  | _ => false

/-- A terminal that the consumer may still be handed. -/
def HasTerminal (s : Stream) (t : Terminal) : Prop :=
  s.worker = .terminal t ∨ .terminal t ∈ s.inFlight

/-- The worker's loop ends here, with terminal `t`. -/
def Ends (s : Stream) (e : Ev) (t : Terminal) : Prop :=
  s.worker.past = false ∧
    match e with
    | .work => s.worker = .close ∧ t = ⟨.cancelled, none⟩ ∨
        s.worker = .next ∧ s.script = [] ∧ t = s.producer.fin.terminal ∨ t.error.isSome = true
    | .stopEarly e => t = e.terminal
    | _ => t.error.isSome = true

variable {s s' : Stream} {e : Ev} {t : Terminal}

/-- A step that sends nothing and does not end the worker's loop. -/
theorem HasTerminal.of_same (ht : s'.HasTerminal t) (hq : ∀ x ∈ s'.inFlight, x ∈ s.inFlight)
    (hw : s'.worker ≠ .terminal t) : s.HasTerminal t := .inr (hq _ (ht.resolve_left hw))

theorem work_terminal (h : s.work = some s') (ht : s'.HasTerminal t) :
    s.HasTerminal t ∨ s.Ends .work t := by
  cases works h with
  | startFails e hw _ =>
    rcases ht with ht | ht
    · cases ht
      exact .inr ⟨by rw [hw]; rfl, .inr (.inr rfl)⟩
    · exact .inl (.inr ht)
  | ends hw hscript =>
    rcases ht with ht | ht
    · cases ht
      exact .inr ⟨by rw [hw]; rfl, .inr (.inl ⟨hw, hscript, rfl⟩)⟩
    · exact .inl (.inr ht)
  | closes hw =>
    rcases ht with ht | ht
    · cases ht
      exact .inr ⟨by rw [hw]; rfl, .inl ⟨hw, rfl⟩⟩
    · exact .inl (.inr ht)
  | offers text hw =>
    rcases ht with ht | ht
    · cases ht
    · exact .inl (.inr (by simpa [inFlight, Callback.item] using ht))
  | terminates t' hw =>
    rcases ht with ht | ht
    · cases ht
    · have hmem : .terminal t ∈ s.inFlight ∨ t = t' := by
        simpa [inFlight, Callback.item, or_assoc] using ht
      rcases hmem with hmem | rfl
      · exact .inl (.inr hmem)
      · exact .inl (.inl hw)
  | notifies hw =>
    rcases ht with ht | ht
    · cases ht
    · exact .inl (.inr (by simpa [inFlight, Callback.item] using ht))
  | _ => exact .inl (ht.of_same (fun _ hx => hx) (by simp))

theorem callback_inFlight (h : s.runCallback = some s') : ∀ x ∈ s'.inFlight, x ∈ s.inFlight := by
  intro x hx
  rcases runCallback_cases h with ⟨item, rest, hch, -, rfl⟩ | ⟨item, rest, hch, -, rfl⟩ |
    ⟨rest, hch, rfl⟩
  · simpa [inFlight, hch, Callback.item] using hx
  · simp only [inFlight, hch, Callback.item, List.filterMap_cons, List.mem_append,
      List.mem_cons] at hx ⊢
    exact hx.imp_right .inr
  · simpa [inFlight, hch, Callback.item] using hx

theorem consume_inFlight {item : Item} {rest : List Item} (hq : s.queue = item :: rest) :
    ∀ x ∈ (s.consume rest item).inFlight, x ∈ s.inFlight := by
  intro x hx
  have hrest : x ∈ rest ++ s.chan.filterMap Callback.item := by
    cases item with
    | token text => exact hx
    | terminal t => simpa [inFlight, consume, finish] using hx
  rw [inFlight, hq]
  exact List.mem_cons_of_mem _ hrest

theorem step_terminal (h : step s e = some s') (ht : s'.HasTerminal t) :
    s.HasTerminal t ∨ s.Ends e t := by
  cases e with
  | work => exact work_terminal h ht
  | stopEarly e =>
    simp only [step] at h
    split at h
    · rename_i hn
      cases h
      rcases ht with ht | ht
      · cases ht
        exact .inr ⟨by rw [hn.1]; rfl, rfl⟩
      · exact .inl (.inr ht)
    · cases h
  | closeRaises e =>
    simp only [step] at h
    split at h
    · rename_i hn
      cases h
      rcases ht with ht | ht
      · cases ht
        exact .inr ⟨by rw [hn]; rfl, rfl⟩
      · exact .inl (.inr ht)
    · cases h
  | callback =>
    have hworker : s'.worker = s.worker := by
      rcases runCallback_cases h with ⟨_, _, -, -, rfl⟩ | ⟨_, _, -, -, rfl⟩ | ⟨_, -, rfl⟩
      · rfl
      · rfl
      · exact fireOnDone_worker _
    exact .inl (ht.imp (fun hw => hworker ▸ hw) (callback_inFlight h _))
  | anext =>
    obtain ⟨-, ⟨-, rfl⟩ | ⟨item, rest, -, hq, rfl⟩ | ⟨-, -, rfl⟩⟩ := anext_cases h
    · exact .inl ht
    · exact .inl (ht.imp (fun hw => consume_worker s rest item ▸ hw) (consume_inFlight hq _))
    · exact .inl ht
  | getResume =>
    obtain ⟨-, item, rest, hq, rfl⟩ := getResume_cases h
    exact .inl (ht.imp (fun hw => consume_worker s rest item ▸ hw) (consume_inFlight hq _))
  | anextCancel =>
    simp only [step] at h
    split at h <;> cases h
    exact .inl ht
  | aclose =>
    cases h
    unfold aclose at ht
    split at ht <;> exact .inl ht
  | acloseResume timedOut =>
    simp only [step, acloseResume] at h
    split at h <;> cases h
    simp only [HasTerminal, inFlight, fireOnDone_worker, fireOnDone_queue, fireOnDone_chan] at ht
    exact .inl ht
  | acloseCancel =>
    simp only [step] at h
    split at h <;> cases h
    exact .inl ht

@[simp]
theorem fireOnDone_result (s : Stream) : s.fireOnDone.result = s.result := by
  unfold fireOnDone
  split <;> rfl

/-- How a step leaves the result: as it was, read off a terminal, or given by `aclose`. -/
inductive ResultStep (s : Stream) (e : Ev) (s' : Stream) : Prop where
  | same (hr : s'.result = s.result)
      (hx : s'.exhausted = true → s.exhausted = true ∨ s.result.isSome = true)
  | read (t : Terminal) (hnone : s.result = none) (ht : .terminal t ∈ s.inFlight)
      (hc : s'.consumer = .ended t.error) (hr : s'.result = some (s.resultWith t.finish))
  | closed (hnone : s.result = none) (hcut : s.cuts e = true)
      (hr : s'.result = some (s.resultWith .cancelled))

theorem consume_result {item : Item} {rest : List Item} (hq : s.queue = item :: rest) (e : Ev) :
    ResultStep s e (s.consume rest item) := by
  cases item with
  | token text => exact .same rfl .inl
  | terminal t =>
    cases hr : s.result with
    | none =>
      refine .read t hr ?_ (by simp [consume, finish]) (by simp [consume, finish, hr, resultWith])
      rw [inFlight, hq]
      exact List.mem_cons_self ..
    | some r =>
      refine .same ?_ fun _ => .inr ?_
      · simp [consume, finish, hr]
      · rw [hr]
        rfl

theorem step_result (h : step s e = some s') : ResultStep s e s' := by
  cases e with
  | work =>
    obtain ⟨_, _, _, _, _, rfl⟩ := work_frame h
    exact .same rfl .inl
  | stopEarly e =>
    simp only [step] at h
    split at h <;> cases h
    exact .same rfl .inl
  | closeRaises e =>
    simp only [step] at h
    split at h <;> cases h
    exact .same rfl .inl
  | callback =>
    rcases runCallback_cases h with ⟨_, _, -, -, rfl⟩ | ⟨_, _, -, -, rfl⟩ | ⟨_, -, rfl⟩
    · exact .same rfl .inl
    · exact .same rfl .inl
    · exact .same (fireOnDone_result _) fun hx => .inl (by simpa using hx)
  | anext =>
    obtain ⟨-, ⟨-, rfl⟩ | ⟨item, rest, -, hq, rfl⟩ | ⟨-, -, rfl⟩⟩ := anext_cases h
    · exact .same rfl .inl
    · exact consume_result hq _
    · exact .same rfl .inl
  | getResume =>
    obtain ⟨-, item, rest, hq, rfl⟩ := getResume_cases h
    exact consume_result hq _
  | anextCancel =>
    simp only [step] at h
    split at h <;> cases h
    exact .same rfl .inl
  | aclose =>
    cases h
    unfold aclose
    split <;> exact .same rfl .inl
  | acloseResume timedOut =>
    simp only [step, acloseResume] at h
    split at h <;> cases h
    cases hr : s.result with
    | none => exact .closed hr (by simp [cuts, hr]) (by simp [resultWith])
    | some r => exact .same (by simp [hr]) fun _ => .inr (by simp [hr])
  | acloseCancel =>
    simp only [step] at h
    split at h <;> cases h
    exact .same rfl .inl

theorem consumer_ended_step {err : Option Exc} (hc : s.consumer = .ended err)
    (h : step s e = some s') :
    s'.consumer = .ended err := by
  cases e with
  | work =>
    obtain ⟨_, _, _, _, _, rfl⟩ := work_frame h
    exact hc
  | stopEarly e =>
    simp only [step] at h
    split at h <;> cases h
    exact hc
  | closeRaises e =>
    simp only [step] at h
    split at h <;> cases h
    exact hc
  | callback =>
    rcases runCallback_cases h with ⟨_, _, -, -, rfl⟩ | ⟨_, _, -, -, rfl⟩ | ⟨_, -, rfl⟩
    · exact hc
    · exact hc
    · rw [fireOnDone_consumer]
      exact hc
  | anext =>
    have hidle := (anext_cases h).1
    rw [hc] at hidle
    cases hidle
  | getResume =>
    have hwait := (getResume_cases h).1
    rw [hc] at hwait
    cases hwait
  | anextCancel => simp [step, hc] at h
  | aclose =>
    cases h
    unfold aclose
    split <;> exact hc
  | acloseResume timedOut =>
    simp only [step, acloseResume] at h
    split at h <;> cases h
    rw [fireOnDone_consumer]
    exact hc
  | acloseCancel =>
    simp only [step] at h
    split at h <;> cases h
    exact hc

/-! ## Before and after the cut -/

structure Fine (s : Stream) : Prop where
  sound : s.Sound
  fair : ∀ t, s.HasTerminal t → t.fair = true
  result : ∀ r, s.result = some r →
    r.finishReason.complete = true ∨ ∃ e, s.consumer = .ended (some e)
  past : s.result.isSome = true → s.worker.past = true
  exhausted : s.exhausted = true → s.result.isSome = true

/-- A step has cut the generation off: whatever the result is or will be, it is not complete. -/
structure Cut (s : Stream) : Prop where
  sound : s.Sound
  result : ∀ r, s.result = some r → r.finishReason.complete = false
  coming : s.result = none →
    s.worker.past = true ∧ ∀ t, s.HasTerminal t → t.finish.complete = false
  exhausted : s.exhausted = true → s.result.isSome = true

theorem exhausted_step (hx : s.exhausted = true → s.result.isSome = true) (h : step s e = some s')
    (hx' : s'.exhausted = true) : s'.result.isSome = true := by
  cases step_result h with
  | same hr hex =>
    rw [hr]
    exact (hex hx').elim hx id
  | read t hnone ht hc hr =>
    rw [hr]
    rfl
  | closed hnone hcut hr =>
    rw [hr]
    rfl

theorem past_of_inFlight (hs : s.Sound) (ht : .terminal t ∈ s.inFlight) : s.worker.past = true := by
  refine past_of_offered ?_
  by_contra hoff
  have htoken := hs.tokens (by simpa using hoff) _ ht
  cases htoken

theorem fair_of_ends (hcut : s.cuts e = false) (h : s.Ends e t) : t.fair = true := by
  obtain ⟨-, h⟩ := h
  cases e with
  | work =>
    rcases h with ⟨hw, -⟩ | ⟨hw, hscript, rfl⟩ | herr
    · simp [cuts, hw] at hcut
    · simpa [cuts, hw, hscript] using hcut
    · simp [Terminal.fair, herr]
  | stopEarly e =>
    cases h
    simpa [cuts] using hcut
  | _ => exact Bool.or_eq_true_iff.mpr (.inl h)

theorem fine_step (hs : s.Fine) (hcut : s.cuts e = false) (h : step s e = some s') : s'.Fine where
  sound := sound_step hs.sound h
  fair := by
    intro t ht
    rcases step_terminal h ht with ht | hends
    · exact hs.fair t ht
    · exact fair_of_ends hcut hends
  result := by
    intro r hr'
    cases step_result h with
    | same hr hx =>
      rw [hr] at hr'
      refine (hs.result r hr').imp_right ?_
      rintro ⟨e', hc⟩
      exact ⟨e', consumer_ended_step hc h⟩
    | read t hnone ht hc hr =>
      rw [hr] at hr'
      cases hr'
      have hfair := hs.fair t (.inr ht)
      rw [Terminal.fair, Bool.or_eq_true, Option.isSome_iff_exists] at hfair
      rcases hfair with ⟨e', he'⟩ | hcomplete
      · exact .inr ⟨e', by rw [hc, he']⟩
      · exact .inl hcomplete
    | closed hnone hcut' hr =>
      rw [hcut] at hcut'
      cases hcut'
  past := by
    intro hr'
    cases step_result h with
    | same hr hx =>
      rw [hr] at hr'
      exact past_step (hs.past hr') h
    | read t hnone ht hc hr => exact past_step (past_of_inFlight hs.sound ht) h
    | closed hnone hcut' hr =>
      rw [hcut] at hcut'
      cases hcut'
  exhausted := exhausted_step hs.exhausted h

theorem cut_step (hs : s.Cut) (h : step s e = some s') : s'.Cut where
  sound := sound_step hs.sound h
  result := by
    intro r hr'
    cases step_result h with
    | same hr hx =>
      rw [hr] at hr'
      exact hs.result r hr'
    | read t hnone ht hc hr =>
      rw [hr] at hr'
      cases hr'
      exact (hs.coming hnone).2 t (.inr ht)
    | closed hnone hcut' hr =>
      rw [hr] at hr'
      cases hr'
      rfl
  coming := by
    intro hnone'
    cases step_result h with
    | same hr hx =>
      rw [hr] at hnone'
      obtain ⟨hpast, hcoming⟩ := hs.coming hnone'
      refine ⟨past_step hpast h, fun t ht => ?_⟩
      rcases step_terminal h ht with ht | hends
      · exact hcoming t ht
      · rw [hends.1] at hpast
        cases hpast
    | read t hnone ht hc hr =>
      rw [hr] at hnone'
      cases hnone'
    | closed hnone hcut' hr =>
      rw [hr] at hnone'
      cases hnone'
  exhausted := exhausted_step hs.exhausted h

theorem incomplete_of_not_fair (h : t.fair = false) : t.finish.complete = false := by
  rw [Terminal.fair, Bool.or_eq_false_iff] at h
  exact h.2

theorem cut_of_end (hs : s.Fine) (hpast : s.worker.past = false) (hterm : t.finish.complete = false)
    (h : step s e = some s') (hw : s'.worker = .terminal t) (hq : s'.inFlight = s.inFlight)
    (hr : s'.result = s.result) : s'.Cut := by
  have hnone : s.result = none := by
    cases hres : s.result with
    | none => rfl
    | some r =>
      have := hs.past (by rw [hres]; rfl)
      rw [hpast] at this
      cases this
  refine ⟨sound_step hs.sound h, ?_, fun _ => ⟨by rw [hw]; rfl, ?_⟩, exhausted_step hs.exhausted h⟩
  · intro r hr'
    rw [hr, hnone] at hr'
    cases hr'
  · intro t' ht'
    rcases ht' with ht' | ht'
    · rw [hw] at ht'
      cases ht'
      exact hterm
    · rw [hq] at ht'
      have := past_of_inFlight hs.sound ht'
      rw [hpast] at this
      cases this

theorem cut_of_fine (hs : s.Fine) (hcut : s.cuts e = true) (h : step s e = some s') : s'.Cut := by
  cases e with
  | work =>
    cases works h with
    | closes hw => exact cut_of_end hs (by rw [hw]; rfl) (t := ⟨.cancelled, none⟩) rfl h rfl rfl rfl
    | ends hw hscript =>
      have hunfair : s.producer.fin.terminal.fair = false := by simpa [cuts, hw, hscript] using hcut
      exact cut_of_end hs (by rw [hw]; rfl) (incomplete_of_not_fair hunfair) h rfl rfl rfl
    | acquires hw _ => rcases hw with hw | hw <;> simp [cuts, hw] at hcut
    | yields _ _ hw hscript => simp [cuts, hw, hscript] at hcut
    | startFails _ hw _ | starts hw _ | cancelled hw _ | loops hw _ | blocks hw
    | rechecksCancelled hw _ | rechecks hw _ | offers _ hw | terminates _ hw | notifies hw =>
      simp [cuts, hw] at hcut
  | stopEarly e =>
    have hunfair : e.terminal.fair = false := by simpa [cuts] using hcut
    have hstep := h
    simp only [step] at hstep
    split at hstep
    · rename_i hn
      cases hstep
      exact cut_of_end hs (by rw [hn.1]; rfl) (incomplete_of_not_fair hunfair) h rfl rfl rfl
    · cases hstep
  | acloseResume timedOut =>
    have hnone : s.result = none := by simpa [cuts] using hcut
    have hr : s'.result = some (s.resultWith .cancelled) := by
      simp only [step, acloseResume] at h
      split at h <;> cases h
      simp [hnone, resultWith]
    refine ⟨sound_step hs.sound h, ?_, ?_, exhausted_step hs.exhausted h⟩
    · intro r hr'
      rw [hr] at hr'
      cases hr'
      rfl
    · intro hnone'
      rw [hr] at hnone'
      cases hnone'
  | _ => simp [cuts] at hcut

theorem fine_init (p : Producer) (pt : Nat) {m : Nat} (hm : 1 ≤ m) : (init p pt m).Fine where
  sound := sound_init p pt hm
  fair := by
    rintro t (ht | ht)
    · cases ht
    · simp [init, inFlight] at ht
  result := by simp [init]
  past := by simp [init]
  exhausted := by simp [init]

theorem Fine.ended (hs : s.Fine) {err : Option Exc} (hc : s.consumer = .ended err) :
    ∃ r, s.result = some r ∧ (err = none → r.finishReason.complete = true) := by
  obtain ⟨r, hr⟩ := Option.isSome_iff_exists.mp (hs.exhausted (hs.sound.ended _ hc))
  refine ⟨r, hr, fun hnone => (hs.result r hr).resolve_right ?_⟩
  rintro ⟨e, he⟩
  rw [hc, hnone] at he
  cases he

theorem Cut.ended (hs : s.Cut) {err : Option Exc} (hc : s.consumer = .ended err) :
    ∃ r, s.result = some r ∧ r.finishReason.complete = false := by
  obtain ⟨r, hr⟩ := Option.isSome_iff_exists.mp (hs.exhausted (hs.sound.ended _ hc))
  exact ⟨r, hr, hs.result r hr⟩

end Stream

namespace ThreadedBackend

variable {b b' : ThreadedBackend}

/-- What an event of the backend does to stream `i`. -/
def streamEvent (b : ThreadedBackend) (i : Nat) : Ev → Option Stream.Ev
  | .stream j e => if j = i then some e else none
  | .unload => if b.active = some i then some .aclose else none
  | .unloadClosed u timedOut =>
    if b.unloads[u]? = some (.closing i) then some (.acloseResume timedOut) else none
  | .unloadCancel u => if b.unloads[u]? = some (.closing i) then some .acloseCancel else none
  | _ => none

/-- Does the event cut the generation of stream `i` off? -/
def cuts (b : ThreadedBackend) (i : Nat) (ev : Ev) : Bool :=
  match b.streams[i]?, b.streamEvent i ev with
  | some s, some e => s.cuts e
  | _, _ => false

/-- What an event does to the streams: nothing, or it starts one, or one of them makes a step. -/
inductive StreamsAfter (b b' : ThreadedBackend) (ev : Ev) : Prop
  | same (hev : ∀ i s, b.streams[i]? = some s → b.streamEvent i ev = none)
      (h : b'.streams = b.streams)
  | started (p : Producer) (n : Nat) (hev : ∀ i, b.streamEvent i ev = none)
      (h : b'.streams = b.streams ++ [.init p n])
  | moved (j : Nat) (r r' : Stream) (e : Stream.Ev) (hr : b.streams[j]? = some r)
      (hstep : r.step e = some r') (hev : ∀ i, b.streamEvent i ev = if j = i then some e else none)
      (h : b'.streams = b.streams.set j r')

theorem unload_streams : StreamsAfter b b.unload .unload := by
  unfold unload
  cases hactive : b.active with
  | none => exact .same (fun i _ _ => by simp [streamEvent, hactive]) rfl
  | some j =>
    have hev (i : Nat) : b.streamEvent i .unload = if j = i then some .aclose else none := by
      simp [streamEvent, hactive]
    simp only
    cases hr : b.streams[j]? with
    | none =>
      refine .same (fun i s hs => ?_) rfl
      rw [hev, if_neg]
      rintro rfl
      rw [hs] at hr
      cases hr
    | some r =>
      simp only
      split
      · rename_i hclosed
        refine .moved j r r .aclose hr (by simp [Stream.step, Stream.aclose, hclosed]) hev ?_
        obtain ⟨hlt, rfl⟩ := List.getElem?_eq_some_iff.mp hr
        exact (List.set_getElem_self hlt).symm
      · exact .moved j r _ .aclose hr rfl hev rfl

theorem closing_streams {j u : Nat} {r r' : Stream} {e : Stream.Ev} {ev : Ev}
    (hu : b.unloads[u]? = some (.closing j))
    (hev : ∀ i, b.streamEvent i ev = if b.unloads[u]? = some (.closing i) then some e else none)
    (hr : b.streams[j]? = some r) (hstep : r.step e = some r')
    (h : b'.streams = b.streams.set j r') : StreamsAfter b b' ev := by
  refine .moved j r r' e hr hstep (fun i => ?_) h
  simp [hev, hu]

theorem step_streams {ev : Ev} (h : b.step ev = some b') : StreamsAfter b b' ev := by
  cases ev with
  | load =>
    cases h
    refine .same (fun _ _ _ => rfl) ?_
    unfold load
    split
    · rfl
    · split <;> rfl
  | unload =>
    cases h
    exact unload_streams
  | unloadClosed u timedOut =>
    simp only [step] at h
    split at h
    · rename_i j hu
      split at h
      · cases h
      · rename_i r hr
        obtain ⟨r', hstep, rfl⟩ := Option.map_eq_some_iff.mp h
        exact closing_streams hu (fun _ => rfl) hr hstep (by simp)
    · cases h
  | unloadCancel u =>
    simp only [step] at h
    split at h
    · rename_i j hu
      split at h
      · cases h
      · rename_i r hr
        obtain ⟨r', hstep, rfl⟩ := Option.map_eq_some_iff.mp h
        exact closing_streams hu (fun _ => rfl) hr hstep (by simp)
    · rename_i hu
      cases h
      exact .same (fun _ _ _ => by simp [streamEvent, hu]) rfl
    · rename_i hu
      cases h
      exact .same (fun _ _ _ => by simp [streamEvent, hu]) rfl
    · rename_i hu
      cases h
      exact .same (fun _ _ _ => by simp [streamEvent, hu]) rfl
    · cases h
  | generate c =>
    cases h
    unfold generate
    split
    · exact .same (fun _ _ _ => rfl) rfl
    · split
      · exact .same (fun _ _ _ => rfl) rfl
      · split
        · exact .same (fun _ _ _ => rfl) rfl
        · split
          · exact .started _ _ (fun _ => rfl) rfl
          · exact .same (fun _ _ _ => rfl) rfl
  | stream j e =>
    obtain ⟨r, r', hr, hstep, rfl⟩ := streamEv_cases h
    exact .moved j r r' e hr hstep (fun _ => rfl) (by simp)
  | _ =>
    -- the hooks of `load` and `unload`
    simp only [step] at h
    split at h <;> cases h
    all_goals exact .same (fun _ _ _ => rfl) rfl

/-- How stream `s`, number `i`, comes out of an event that acts on it as `act`. -/
def StreamAfter (b' : ThreadedBackend) (i : Nat) (s : Stream) (act : Option Stream.Ev) : Prop :=
  ∃ s', b'.streams[i]? = some s' ∧
    match act with
    | some e => s.step e = some s'
    | none => s' = s

theorem step_stream {i : Nat} {s : Stream} {ev : Ev} (hs : b.streams[i]? = some s)
    (h : b.step ev = some b') : b'.StreamAfter i s (b.streamEvent i ev) := by
  have hlt : i < b.streams.length := (List.getElem?_eq_some_iff.mp hs).1
  cases step_streams h with
  | same hev h =>
    rw [hev i s hs]
    exact ⟨s, by rw [h, hs], rfl⟩
  | started p n hev h =>
    rw [hev]
    exact ⟨s, by rw [h, List.getElem?_append_left hlt, hs], rfl⟩
  | moved j r r' e hr hstep hev h =>
    rw [hev]
    by_cases hij : j = i
    · subst hij
      rw [hs] at hr
      cases hr
      rw [if_pos rfl]
      exact ⟨r', by rw [h, List.getElem?_set_self hlt], hstep⟩
    · rw [if_neg hij]
      exact ⟨s, by rw [h, List.getElem?_set_ne hij, hs], rfl⟩

theorem step_new_stream {i : Nat} {s' : Stream} {ev : Ev} (hs : b.streams[i]? = none)
    (h : b.step ev = some b') (hs' : b'.streams[i]? = some s') : ∃ p n, s' = Stream.init p n := by
  rw [List.getElem?_eq_none_iff] at hs
  have hlt : i < b'.streams.length := (List.getElem?_eq_some_iff.mp hs').1
  cases step_streams h with
  | same _ h =>
    rw [h] at hlt
    omega
  | started p n _ h =>
    rw [h, List.getElem?_append_right hs] at hs'
    exact ⟨p, n, List.mem_singleton.mp (List.mem_of_getElem? hs')⟩
  | moved j r r' e _ _ _ h =>
    rw [h, List.length_set] at hlt
    omega

theorem cuts_eq {i : Nat} {s : Stream} (hs : b.streams[i]? = some s) (ev : Ev) :
    b.cuts i ev = ((b.streamEvent i ev).map s.cuts).getD false := by
  unfold cuts
  rw [hs]
  cases b.streamEvent i ev <;> rfl

def FineAt (b : ThreadedBackend) (i : Nat) : Prop := ∀ s, b.streams[i]? = some s → s.Fine

def CutAt (b : ThreadedBackend) (i : Nat) : Prop := ∃ s, b.streams[i]? = some s ∧ s.Cut

theorem fineAt_step {i : Nat} {ev : Ev} (hfine : b.FineAt i) (hok : b.cuts i ev = false)
    (hst : b.step ev = some b') : b'.FineAt i := by
  intro s' hs'
  cases hold : b.streams[i]? with
  | none =>
    obtain ⟨p, n, rfl⟩ := step_new_stream hold hst hs'
    exact Stream.fine_init p n (by decide)
  | some s =>
    obtain ⟨r', hr', hact⟩ := step_stream hold hst
    rw [hs'] at hr'
    cases hr'
    rw [cuts_eq hold] at hok
    cases hev : b.streamEvent i ev with
    | none =>
      rw [hev] at hact
      rw [hact]
      exact hfine s hold
    | some e =>
      rw [hev] at hact hok
      exact Stream.fine_step (hfine s hold) hok hact

theorem cutAt_of_fineAt {i : Nat} {ev : Ev} (hfine : b.FineAt i) (hcut : ¬ b.cuts i ev = false)
    (hst : b.step ev = some b') : b'.CutAt i := by
  cases hold : b.streams[i]? with
  | none => simp [cuts, hold] at hcut
  | some s =>
    obtain ⟨r', hr', hact⟩ := step_stream hold hst
    rw [cuts_eq hold] at hcut
    cases hev : b.streamEvent i ev with
    | none => simp [hev] at hcut
    | some e =>
      rw [hev] at hact hcut
      exact ⟨r', hr', Stream.cut_of_fine (hfine s hold) (by simpa using hcut) hact⟩

theorem cutAt_step {i : Nat} {ev : Ev} (hcut : b.CutAt i) (hst : b.step ev = some b') :
    b'.CutAt i := by
  obtain ⟨s, hold, hs⟩ := hcut
  obtain ⟨r', hr', hact⟩ := step_stream hold hst
  cases hev : b.streamEvent i ev with
  | none =>
    rw [hev] at hact
    exact ⟨r', hr', by rw [hact]; exact hs⟩
  | some e =>
    rw [hev] at hact
    exact ⟨r', hr', Stream.cut_step hs hact⟩

/-- **A generation ends complete exactly when no step has cut it off.** In every run of the backend,
a consumer that was told the end of its stream finds a result, and if it was told of no error the
result is complete if and only if no event of the run has cut that stream. -/
theorem complete_iff {i : Nat} {s : Stream} {err : Option Exc} {ls : List Ev}
    (h : Run step init ls b) (hs : b.streams[i]? = some s) (hc : s.consumer = .ended err) :
    ∃ r, s.result = some r ∧ (err = none → (r.finishReason.complete = true ↔
      Guarded step (fun b ev => b.cuts i ev = false) init ls)) := by
  have hinit : init.FineAt i := by
    intro s hs
    simp [init] at hs
  rcases h.guarded_or (fun _ _ _ hfine hok hst => fineAt_step hfine hok hst)
    (fun _ _ _ hfine hcut hst => cutAt_of_fineAt hfine hcut hst)
    (fun _ _ _ hcut hst => cutAt_step hcut hst) hinit with ⟨hg, hfine⟩ | ⟨hg, s', hs', hcut⟩
  · obtain ⟨r, hr, hcomplete⟩ := (hfine s hs).ended hc
    exact ⟨r, hr, fun hnone => iff_of_true (hcomplete hnone) hg⟩
  · rw [hs] at hs'
    cases hs'
    obtain ⟨r, hr, hincomplete⟩ := hcut.ended hc
    exact ⟨r, hr, fun _ => iff_of_false (by simp [hincomplete]) hg⟩

end ThreadedBackend
end InferenceEngine
