import InferenceEngine.Inference.ThreadedLifecycle

/-!
# Inference.ThreadedWorkers

Who executes the model: at most one worker thread is inside the token producer, and `_unload` never
runs beside one.

The backend goes back to ready when `on_done` fires. That says that the worker has left the
producer, except after a join that timed out. `Exclusive` is the invariant; `exclusive_step` shows
that every step that satisfies `KeepsExclusive` keeps it; `single_worker` is the result over runs,
and `timedOut_twoWorkers` a run that loses it.
-/

namespace InferenceEngine
namespace Stream

variable {s s' : Stream}

theorem work_past (hp : s.worker.past = true) (h : s.work = some s') : s'.worker.past = true := by
  cases works h with
  | acquires hw _ => rcases hw with hw | hw <;> rw [hw] at hp <;> cases hp
  | startFails _ hw _ | starts hw _ | cancelled hw _ | loops hw _ | blocks hw
  | rechecksCancelled hw _ | rechecks hw _ | yields _ _ hw _ | offers _ hw =>
    rw [hw] at hp
    cases hp
  | _ => rfl

theorem past_of_offered {w : Worker} (h : w.offered = true) : w.past = true := by
  cases w <;> first | rfl | cases h

theorem inProducer_of_past {w : Worker} (h : w.past = true) : w.inProducer = false := by
  cases w <;> first | rfl | cases h

theorem past_step (hp : s.worker.past = true) {e : Ev} (h : step s e = some s') :
    s'.worker.past = true := by
  cases e with
  | work => exact work_past hp h
  | stopEarly e => simp only [step] at h; split at h <;> cases h; rfl
  | closeRaises e => simp only [step] at h; split at h <;> cases h; rfl
  | callback =>
    rcases runCallback_cases h with ⟨_, _, -, -, rfl⟩ | ⟨_, _, -, -, rfl⟩ | ⟨_, -, rfl⟩
    · exact hp
    · exact hp
    · rw [fireOnDone_worker]; exact hp
  | anext =>
    obtain ⟨-, ⟨-, rfl⟩ | ⟨_, _, -, -, rfl⟩ | ⟨-, -, rfl⟩⟩ := anext_cases h
    · exact hp
    · rw [consume_worker]; exact hp
    · exact hp
  | getResume =>
    obtain ⟨-, _, _, -, rfl⟩ := getResume_cases h
    rw [consume_worker]; exact hp
  | anextCancel => simp only [step] at h; split at h <;> cases h; exact hp
  | aclose => cases h; simp only [aclose]; split <;> exact hp
  | acloseResume timedOut =>
    simp only [step, acloseResume] at h
    split at h <;> cases h
    rw [fireOnDone_worker]; exact hp
  | acloseCancel => simp only [step] at h; split at h <;> cases h; exact hp

/-- What fires `on_done` comes after the worker's loop, unless a join times out. -/
theorem past_of_fires (hs : s.Sound) {e : Ev} (hok : e = .acloseResume true → s.worker.past = true)
    (h : s.Fires e) : s.worker.past = true := by
  rcases h with hch | ⟨t, rest, hq⟩ | ⟨timedOut, rfl, hj⟩
  · rw [hs.notified hch]; rfl
  · -- the consumer reads a terminal only after the worker has offered it
    refine past_of_offered ?_
    by_contra hoff
    have := hs.tokens (by simpa using hoff) (.terminal t) (by simp [inFlight, hq])
    cases this
  · cases timedOut with
    | true => exact hok rfl
    | false => simp [show s.worker = .ended by simpa using hj, Worker.past]

/-- `on_done` has fired only for a worker that is past its loop, as long as no join times out on
one that is not. -/
theorem fired_past_step (hs : s.Sound) (hf : s.onDoneFired = true → s.worker.past = true) {e : Ev}
    (hok : e = .acloseResume true → s.worker.past = true) (h : step s e = some s')
    (hf' : s'.onDoneFired = true) : s'.worker.past = true := by
  rcases step_fires h with ⟨heq, -⟩ | ⟨-, hfires, hw⟩
  · rw [heq] at hf'
    exact past_step (hf hf') h
  · rw [hw]
    exact past_of_fires hs hok hfires

/-- A stream in which `on_done` has fired only after its worker left the producer. -/
structure Prompt (s : Stream) : Prop where
  sound : s.Sound
  fired : s.onDoneFired = true → s.worker.past = true

theorem prompt_init (p : Producer) (pt : Nat) : (init p pt).Prompt :=
  ⟨sound_init p pt (by decide), by simp [init]⟩

theorem prompt_step (hs : s.Prompt) {e : Ev}
    (hok : e = .acloseResume true → s.worker.past = true) (h : step s e = some s') : s'.Prompt :=
  ⟨sound_step hs.sound h, fired_past_step hs.sound hs.fired hok h⟩

end Stream

namespace ThreadedBackend

open Lts

/-- No worker is in its loop. -/
def Idle (b : ThreadedBackend) : Prop := ∀ s ∈ b.streams, s.worker.past = true

/-- No `_unload` is submitted or running. -/
def NoUnload (b : ThreadedBackend) : Prop := ∀ u ∈ b.unloads, u.outstanding = false

structure Exclusive (b : ThreadedBackend) : Prop where
  prompt : ∀ s ∈ b.streams, s.Prompt
  live : b.live ≤ if b.state = .generating then 1 else 0
  unloading : b.NoUnload ∨ b.Idle

/-- Does a call of `unload` go on to submit `_unload` without waiting for a stream? -/
def unloadSubmits (b : ThreadedBackend) : Bool :=
  b.state != .unloaded &&
    match b.active with
    | none => true
    | some i => b.streams[i]?.any Stream.closed

/-- The worker that unload `u` has waited for. -/
def joined (b : ThreadedBackend) (u : Nat) : Option Stream :=
  match b.unloads[u]? with
  | some (.closing i) => b.streams[i]?
  | _ => none

/-- The steps that keep `Exclusive`:

* no join times out on a worker that is not past its loop;
* `load` and `unload` write the state only when no stream is live;
* `_unload` is submitted only when no worker is in its loop;
* no generation starts while `_unload` is submitted or running. -/
def KeepsExclusive (b : ThreadedBackend) : Ev → Prop
  | .stream i e => e = .acloseResume true → ∀ s ∈ b.streams[i]?, s.worker.past = true
  | .unloadClosed u timedOut =>
    (timedOut = true → ∀ s ∈ b.joined u, s.worker.past = true) ∧ (b.state ≠ .unloaded → b.Idle)
  | .unload => b.unloadSubmits = true → b.Idle
  | .loadResume _ | .unloadResume _ => b.live = 0
  | .unloadCancel u => b.unloads[u]?.any UnloadTask.awaitsHook = true → b.live = 0
  | .generate _ => b.state = .ready → b.NoUnload
  | _ => True

instance (b : ThreadedBackend) : Decidable b.Idle :=
  inferInstanceAs (Decidable (∀ s ∈ b.streams, _ = true))

instance (b : ThreadedBackend) : Decidable b.NoUnload :=
  inferInstanceAs (Decidable (∀ u ∈ b.unloads, _ = false))

instance (b : ThreadedBackend) (e : Ev) : Decidable (KeepsExclusive b e) :=
  match e with
  | .stream i e => inferInstanceAs (Decidable (e = _ → ∀ s ∈ b.streams[i]?, _ = true))
  | .unloadClosed u timedOut =>
    inferInstanceAs (Decidable ((timedOut = true → ∀ s ∈ b.joined u, _ = true) ∧ _))
  | .unload => inferInstanceAs (Decidable (_ = true → b.Idle))
  | .loadResume _ | .unloadResume _ => inferInstanceAs (Decidable (_ = 0))
  | .unloadCancel u => inferInstanceAs (Decidable (b.unloads[u]?.any _ = true → _))
  | .generate _ => inferInstanceAs (Decidable (_ → b.NoUnload))
  | .load | .loadHook .. | .loadCancel _ | .unloadHookStart _ | .unloadHook .. => .isTrue trivial

variable {b b' : ThreadedBackend}

theorem exclusive_init : init.Exclusive where
  prompt := by simp [init]
  live := by simp [init, ThreadedBackend.live]
  unloading := .inl (by simp [NoUnload, init])

/-- `load` and `unload` may write any state over one without a live stream. -/
theorem exclusive_write (hb : b.Exclusive) (hlive : b.live = 0) (hstr : b'.streams = b.streams)
    (hun : b.NoUnload → b'.NoUnload) : b'.Exclusive where
  prompt := by rw [hstr]; exact hb.prompt
  live := by
    rw [ThreadedBackend.live, hstr]
    exact hlive.le.trans (Nat.zero_le _)
  unloading := hb.unloading.imp hun fun hi => by rw [Idle, hstr]; exact hi

theorem exclusive_congr (hb : b.Exclusive) (hst : b'.state = b.state)
    (hstr : b'.streams = b.streams) (hun : b.NoUnload → b'.NoUnload) : b'.Exclusive where
  prompt := by rw [hstr]; exact hb.prompt
  live := by rw [ThreadedBackend.live, hstr, hst]; exact hb.live
  unloading := hb.unloading.imp hun fun hi => by rw [Idle, hstr]; exact hi

theorem noUnload_set {u : Nat} {t t' : UnloadTask} (hu : b.unloads[u]? = some t)
    (ht : t.outstanding = false → t'.outstanding = false) (hb : b.NoUnload) :
    ∀ x ∈ b.unloads.set u t', x.outstanding = false := by
  intro x hx
  rcases List.mem_or_eq_of_mem_set hx with hx | rfl
  · exact hb x hx
  · exact ht (hb t (List.mem_of_getElem? hu))

theorem noUnload_append {t : UnloadTask} (ht : t.outstanding = false) (hb : b.NoUnload) :
    ∀ x ∈ b.unloads ++ [t], x.outstanding = false := by
  intro x hx
  rcases List.mem_append.mp hx with hx | hx
  · exact hb x hx
  · rw [List.mem_singleton.mp hx]; exact ht

theorem streamMoved_exclusive (hb : b.Exclusive) {i : Nat} {s s' : Stream}
    (hi : b.streams[i]? = some s) (hs' : s'.Prompt)
    (hpast : s.worker.past = true → s'.worker.past = true)
    (hmono : s.onDoneFired = true → s'.onDoneFired = true) :
    (b.streamMoved i s s').Exclusive := by
  have hlive := live_set hi s'
  have hb' := hb.live
  have hprompt : ∀ x ∈ b.streams.set i s', x.Prompt := by
    intro x hx
    rcases List.mem_or_eq_of_mem_set hx with hx | rfl
    · exact hb.prompt x hx
    · exact hs'
  have hidle : b.Idle → ∀ x ∈ b.streams.set i s', x.worker.past = true := by
    intro h x hx
    rcases List.mem_or_eq_of_mem_set hx with hx | rfl
    · exact h x hx
    · exact hpast (h s (List.mem_of_getElem? hi))
  simp only [streamMoved]
  split
  · rename_i hf
    simp only [hf.1, hf.2, if_true, Bool.false_eq_true, if_false] at hlive
    refine ⟨hprompt, ?_, hb.unloading.imp id hidle⟩
    refine le_trans ?_ (Nat.zero_le _)
    show (b.streams.set i s').countP _ ≤ 0
    split at hb' <;> omega
  · rename_i hf
    refine ⟨hprompt, ?_, hb.unloading.imp id hidle⟩
    refine le_trans ?_ hb'
    show (b.streams.set i s').countP _ ≤ b.live
    cases hs : s.onDoneFired with
    | true => simp only [hs, hmono hs, if_true] at hlive; omega
    | false =>
      have hs' : s'.onDoneFired = false := by simpa [hs] using hf
      simp only [hs, hs'] at hlive
      omega

theorem streamMoved_idle {i : Nat} {s s' : Stream} (hi : b.Idle) (hs' : s'.worker.past = true) :
    (b.streamMoved i s s').Idle := by
  intro x hx
  rw [streamMoved_streams] at hx
  rcases List.mem_or_eq_of_mem_set hx with hx | rfl
  · exact hi x hx
  · exact hs'

theorem unloadCheck_outstanding (b : ThreadedBackend) :
    b.unloadCheck.outstanding = (b.state != .unloaded) := by
  simp only [unloadCheck]
  split
  · rename_i h; simp [h, UnloadTask.outstanding]
  · rename_i h; simpa [UnloadTask.outstanding] using h

theorem load_exclusive (hb : b.Exclusive) : b.load.2.Exclusive := by
  simp only [load]
  split
  · exact hb
  · rename_i hr
    split
    · exact hb
    · refine exclusive_write hb ?_ rfl id
      have := hb.live
      rw [if_neg fun hg => hr (.inr hg)] at this
      omega

theorem unload_exclusive (hb : b.Exclusive) (hok : KeepsExclusive b .unload) :
    b.unload.Exclusive := by
  simp only [KeepsExclusive, unloadSubmits, Bool.and_eq_true, bne_iff_ne, ne_eq] at hok
  -- submitting `_unload`, or returning, once no stream is waited for
  have hcheck (active : Option Nat) (hidle : ¬ b.state = .unloaded → b.Idle) :
      Exclusive { b with
        active := active
        unloads := b.unloads ++ [b.unloadCheck] } := by
    refine ⟨hb.prompt, hb.live, ?_⟩
    by_cases hst : b.state = .unloaded
    · refine hb.unloading.imp (fun hn => noUnload_append ?_ hn) id
      rw [unloadCheck_outstanding, hst]; rfl
    · exact .inr (hidle hst)
  simp only [unload]
  split
  · rename_i hact
    rw [hact] at hok
    have := hcheck none fun hst => hok ⟨hst, rfl⟩
    simpa only [hact] using this
  · rename_i i hact
    split
    · exact hb
    · rename_i s hi
      split
      · rename_i hcl
        exact hcheck none fun hst => hok ⟨hst, by simp [hact, hi, hcl]⟩
      · -- the stream is closed first
        have hst : s.step .aclose = some s.aclose := rfl
        have hp := hb.prompt s (List.mem_of_getElem? hi)
        have hfired : s.aclose.onDoneFired = s.onDoneFired := by
          simp only [Stream.aclose]; split <;> rfl
        have hmoved := streamMoved_exclusive hb hi (Stream.prompt_step hp (by simp) hst)
          (fun h => Stream.past_step h hst) (fun h => Stream.fired_step h hst)
        have heq : b.streamMoved i s s.aclose = { b with streams := b.streams.set i s.aclose } := by
          simp only [streamMoved]
          rw [if_neg]
          rw [hfired]
          rintro ⟨h₁, h₂⟩
          rw [h₁] at h₂
          cases h₂
        rw [heq] at hmoved
        exact ⟨hmoved.prompt, hmoved.live,
          hmoved.unloading.imp (fun hn => noUnload_append rfl hn) id⟩

theorem generate_exclusive (hb : b.Exclusive) {c : GenerateCall}
    (hok : KeepsExclusive b (.generate c)) : (b.generate c).2.Exclusive := by
  simp only [KeepsExclusive] at hok
  simp only [generate]
  split
  · exact hb
  · split
    · exact hb
    · rename_i hg hr
      have hr : b.state = .ready := by simpa using hr
      have hlive : b.live = 0 := by
        have := hb.live
        rw [if_neg hg] at this
        omega
      split
      · exact exclusive_write hb hlive rfl id
      · rename_i n _
        split
        · refine ⟨?_, ?_, .inl (hok hr)⟩
          · intro s hs
            rcases List.mem_append.mp hs with hs | hs
            · exact hb.prompt s hs
            · rw [List.mem_singleton.mp hs]; exact Stream.prompt_init c.producer n
          · simp only [ThreadedBackend.live, List.countP_append, if_true] at hlive ⊢
            rw [hlive]
            rfl
        · exact exclusive_write hb hlive rfl id

theorem stream_exclusive (hb : b.Exclusive) {i : Nat} {e : Stream.Ev}
    (hok : KeepsExclusive b (.stream i e)) (h : b.streamEv i e = some b') : b'.Exclusive := by
  obtain ⟨s, s', hi, hs', rfl⟩ := streamEv_cases h
  have hp := hb.prompt s (List.mem_of_getElem? hi)
  exact streamMoved_exclusive hb hi (Stream.prompt_step hp (fun he => hok he s (by simp [hi])) hs')
    (fun hpast => Stream.past_step hpast hs') (fun hf => Stream.fired_step hf hs')

theorem unloadClosed_exclusive (hb : b.Exclusive) {u : Nat} {timedOut : Bool}
    (hok : KeepsExclusive b (.unloadClosed u timedOut))
    (h : step b (.unloadClosed u timedOut) = some b') : b'.Exclusive := by
  obtain ⟨hjoin, hidle⟩ := hok
  simp only [step] at h
  split at h
  · rename_i i hu
    split at h
    · cases h
    · rename_i s hi
      simp only [Option.map_eq_some_iff] at h
      obtain ⟨s', hs', rfl⟩ := h
      have hp := hb.prompt s (List.mem_of_getElem? hi)
      have hpast : timedOut = true → s.worker.past = true :=
        fun ht => hjoin ht s (by simp [joined, hu, hi])
      have hmoved := streamMoved_exclusive hb hi
        (Stream.prompt_step hp (fun he => hpast (by simpa using he)) hs')
        (fun hpast => Stream.past_step hpast hs') (fun hf => Stream.fired_step hf hs')
      have huns := streamMoved_unloads b i s s'
      refine ⟨hmoved.prompt, hmoved.live, ?_⟩
      by_cases hst : b.state = .unloaded
      · refine hmoved.unloading.imp (fun hn => ?_) id
        refine noUnload_set (by rw [huns]; exact hu) (fun _ => ?_) hn
        rw [unloadCheck_outstanding]
        simp only [streamMoved]
        split <;> simp [onGenerationDone, hst]
      · right
        have hs := hidle hst s (List.mem_of_getElem? hi)
        exact streamMoved_idle (hidle hst) (Stream.past_step hs hs')
  · cases h

theorem unloadCancel_exclusive (hb : b.Exclusive) {u : Nat}
    (hok : KeepsExclusive b (.unloadCancel u)) (h : step b (.unloadCancel u) = some b') :
    b'.Exclusive := by
  simp only [KeepsExclusive] at hok
  simp only [step] at h
  split at h
  · rename_i i hu
    split at h
    · cases h
    · rename_i s hi
      simp only [Option.map_eq_some_iff] at h
      obtain ⟨s', hs', rfl⟩ := h
      have hmoved := streamMoved_exclusive hb hi
        (Stream.prompt_step (hb.prompt s (List.mem_of_getElem? hi)) (by simp) hs')
        (fun hpast => Stream.past_step hpast hs') (fun hf => Stream.fired_step hf hs')
      have huns := streamMoved_unloads b i s s'
      exact ⟨hmoved.prompt, hmoved.live, hmoved.unloading.imp
        (noUnload_set (by rw [huns]; exact hu) fun _ => rfl) id⟩
  · rename_i hu
    cases h
    exact exclusive_write hb (hok (by simp [hu, UnloadTask.awaitsHook])) rfl
      (noUnload_set hu fun _ => rfl)
  · rename_i hu
    cases h
    exact exclusive_write hb (hok (by simp [hu, UnloadTask.awaitsHook])) rfl
      (noUnload_set hu id)
  · rename_i hu
    cases h
    exact exclusive_write hb (hok (by simp [hu, UnloadTask.awaitsHook])) rfl
      (noUnload_set hu fun _ => rfl)
  · cases h

theorem exclusive_step (hb : b.Exclusive) {e : Ev} (hok : KeepsExclusive b e)
    (h : step b e = some b') : b'.Exclusive := by
  cases e with
  | load => cases h; exact load_exclusive hb
  | loadHook k ok =>
    simp only [step] at h
    split at h <;> cases h <;> exact exclusive_congr hb rfl rfl id
  | loadResume k =>
    simp only [step] at h
    split at h <;> cases h
    exact exclusive_write hb hok rfl id
  | loadCancel k =>
    simp only [step] at h
    split at h <;> cases h <;> exact exclusive_congr hb rfl rfl id
  | unload => cases h; exact unload_exclusive hb hok
  | unloadClosed u timedOut => exact unloadClosed_exclusive hb hok h
  | unloadHookStart u =>
    simp only [step] at h
    split at h <;> cases h
    rename_i hu
    exact exclusive_congr hb rfl rfl (noUnload_set hu id)
  | unloadHook u ok =>
    simp only [step] at h
    split at h <;> cases h <;>
      exact exclusive_congr hb rfl rfl (noUnload_set ‹_› fun _ => rfl)
  | unloadResume u =>
    simp only [step] at h
    split at h <;> cases h
    exact exclusive_write hb hok rfl (noUnload_set ‹_› fun _ => rfl)
  | unloadCancel u => exact unloadCancel_exclusive hb hok h
  | generate c => cases h; exact generate_exclusive hb hok
  | stream i e => exact stream_exclusive hb hok h

/-- A worker in the producer is one of a live stream. -/
theorem inProducer_le_live (hb : b.Exclusive) :
    b.streams.countP (fun s => s.worker.inProducer) ≤ b.live := by
  refine List.countP_mono_left fun s hs hp => ?_
  cases hf : s.onDoneFired with
  | false => rfl
  | true =>
    rw [Stream.inProducer_of_past ((hb.prompt s hs).fired hf)] at hp
    cases hp

/-- **One worker at a time.** In every run whose steps all satisfy `KeepsExclusive`, at most one
worker thread executes the token producer, and `_unload` never runs while one does. -/
theorem single_worker {ls : List Ev} (h : Run step init ls b)
    (hg : Guarded step KeepsExclusive init ls) :
    b.streams.countP (fun s => s.worker.inProducer) ≤ 1 ∧
      ∀ u ∈ b.unloads, u.inHook = true → ∀ s ∈ b.streams, s.worker.inProducer = false := by
  have hb := h.invariant_of_guarded (fun _ _ _ hb hok hst => exclusive_step hb hok hst) hg
    exclusive_init
  constructor
  · have := hb.live
    refine (inProducer_le_live hb).trans (this.trans ?_)
    split <;> omega
  · intro u hu hin s hs
    rcases hb.unloading with hn | hi
    · have := hn u hu
      cases u <;> simp_all [UnloadTask.inHook, UnloadTask.outstanding]
    · exact Stream.inProducer_of_past (hi s hs)

/-- A generation is abandoned by its client, the join ends in time, and the next one starts. -/
def closedInTime : List Ev :=
  [.load, .loadHook 0 true, .loadResume 0,
    .generate ⟨⟨["a"], .returned none, none⟩, some 3, true⟩, .stream 0 .work, .stream 0 .aclose] ++
    .replicate 4 (.stream 0 .work) ++
    [.stream 0 (.acloseResume false), .generate ⟨⟨["b"], .returned none, none⟩, some 3, true⟩]

def closedInTimeEnd : ThreadedBackend := (exec step init closedInTime).get (by decide +kernel)

theorem single_worker_closedInTime :
    Run step init closedInTime closedInTimeEnd ∧ closedInTimeEnd.streams.length = 2 ∧
      closedInTimeEnd.streams.countP (fun s => s.worker.inProducer) ≤ 1 := by
  have hrun : Run step init closedInTime closedInTimeEnd :=
    run_of_exec (by simp [closedInTimeEnd])
  exact ⟨hrun, by decide +kernel, (single_worker hrun (by decide +kernel)).1⟩

/-- The producer does not look at the cancellation, the join times out, and the next generation is
let in. -/
def timedOut : List Ev :=
  [.load, .loadHook 0 true, .loadResume 0,
    .generate ⟨⟨["a"], .returned none, none⟩, some 3, true⟩, .stream 0 .aclose,
    .stream 0 (.acloseResume true), .generate ⟨⟨["b"], .returned none, none⟩, some 3, true⟩]

def timedOutEnd : ThreadedBackend := (exec step init timedOut).get (by decide +kernel)

theorem timedOut_twoWorkers :
    ∃ b, Run step init timedOut b ∧ b.streams.countP (fun s => s.worker.inProducer) = 2 :=
  ⟨timedOutEnd, run_of_exec (by simp [timedOutEnd]), by decide +kernel⟩

end ThreadedBackend
end InferenceEngine
