import InferenceEngine.Inference.Threaded
import InferenceEngine.Lib.Count

/-!
# Inference.ThreadedLifecycle

What the lifecycle state of a `ThreadedBackend` says about the model and its streams.

`load` and `unload` read the state before their awaits and write it after them, and `unload` leaves
the state as it is while its hook runs. `keeps_lifecycle_iff` says of each step whether it keeps the
invariant `Lifecycle`; `lifecycle_iff` lifts this to runs: the invariant holds in every state of a
run exactly when every step of it satisfies `KeepsLifecycle`.
-/

namespace InferenceEngine

/-- Is the call suspended in the await of its hook? -/
def UnloadTask.awaitsHook : UnloadTask → Bool
  | .pending | .running | .hookDone => true
  | _ => false

namespace ThreadedBackend

open Lts

/-- The streams that have not fired `on_done`. -/
def live (b : ThreadedBackend) : Nat := b.streams.countP fun s => !s.onDoneFired

/-- The lifecycle state tells the truth about the model and the streams. -/
structure Lifecycle (b : ThreadedBackend) : Prop where
  resident : b.state = .ready ∨ b.state = .generating → b.llm = true
  generating : b.live = if b.state = .generating then 1 else 0
  idle : b.state = .loading ∨ b.state = .unloaded → b.live = 0

/-- A generate call that raises leaves the state as it was. -/
def RaisesClean (b : ThreadedBackend) (e : Ev) : Prop :=
  ∀ c exc, e = .generate c → (b.generate c).1 = .error exc → (b.generate c).2.state = b.state

/-- The steps that keep `Lifecycle`:

* a load comes back with success only to a resident model and no generation, with failure only to no
  generation;
* `_unload` ends only in a state that promises no model;
* an unload writes the state only when there is no generation;
* a new stream's worker thread starts. -/
def KeepsLifecycle (b : ThreadedBackend) : Ev → Prop
  | .loadResume k =>
    (b.loads[k]? = some (.hookDone true) → b.llm = true) ∧ b.state ≠ .generating
  | .unloadHook _ ok => ok = true → b.state ≠ .ready ∧ b.state ≠ .generating
  | .unloadResume _ => b.state ≠ .generating
  | .unloadCancel u => b.unloads[u]?.any UnloadTask.awaitsHook = true → b.state ≠ .generating
  | .generate c => b.state = .ready → c.promptTokens.isSome = true → c.threadStarts = true
  | _ => True

instance (b : ThreadedBackend) (e : Ev) : Decidable (KeepsLifecycle b e) :=
  match e with
  | .loadResume _ => inferInstanceAs (Decidable (_ ∧ _))
  | .unloadHook _ ok => inferInstanceAs (Decidable (ok = true → _))
  | .unloadResume _ => inferInstanceAs (Decidable (_ ≠ _))
  | .unloadCancel u => inferInstanceAs (Decidable (b.unloads[u]?.any _ = true → _))
  | .generate c => inferInstanceAs (Decidable (_ → c.promptTokens.isSome = true → _))
  | .load | .loadHook .. | .loadCancel _ | .unload | .unloadClosed .. | .unloadHookStart _
  | .stream .. => .isTrue trivial

variable {b b' : ThreadedBackend}

theorem lifecycle_init : init.Lifecycle := ⟨by simp [init], rfl, fun _ => rfl⟩

theorem live_set {i : Nat} {s : Stream} (hi : b.streams[i]? = some s) (s' : Stream) :
    (b.streams.set i s').countP (fun s => !s.onDoneFired) + (if s.onDoneFired then 0 else 1) =
      b.live + (if s'.onDoneFired then 0 else 1) := by
  have := Count.countP_set_add (p := fun s : Stream => !s.onDoneFired) (b := s') hi
  simp only [live]
  cases hs : s.onDoneFired <;> cases hs' : s'.onDoneFired <;>
    simp only [hs, hs', Bool.not_true, Bool.not_false, Bool.false_eq_true, if_true, if_false]
      at this ⊢ <;> omega

theorem streamMoved_lifecycle (hb : b.Lifecycle) {i : Nat} {s s' : Stream}
    (hi : b.streams[i]? = some s) (hmono : s.onDoneFired = true → s'.onDoneFired = true) :
    (b.streamMoved i s s').Lifecycle := by
  have hlive := live_set hi s'
  have hgen := hb.generating
  simp only [streamMoved]
  split
  · rename_i hf
    simp only [hf.1, hf.2, if_true, Bool.false_eq_true, if_false] at hlive
    -- a stream was live, so the backend was generating
    have hstate : b.state = .generating := by
      by_contra hne
      rw [if_neg hne] at hgen
      omega
    rw [if_pos hstate] at hgen
    simp only [onGenerationDone, hstate, if_true]
    refine ⟨fun _ => hb.resident (.inr hstate), ?_, by simp⟩
    simp only [live, reduceCtorEq, if_false]
    omega
  · rename_i hf
    have hsame : ({ b with streams := b.streams.set i s' } : ThreadedBackend).live = b.live := by
      show (b.streams.set i s').countP _ = b.live
      cases hs : s.onDoneFired with
      | true =>
        simp only [hs, hmono hs, if_true] at hlive
        omega
      | false =>
        have hs' : s'.onDoneFired = false := by simpa [hs] using hf
        simp only [hs, hs'] at hlive
        omega
    exact ⟨hb.resident, hsame.trans hgen, fun h => hsame.trans (hb.idle h)⟩

theorem Lifecycle.congr (hb : b.Lifecycle) (hst : b'.state = b.state) (hllm : b'.llm = b.llm)
    (hstr : b'.streams = b.streams) : b'.Lifecycle := by
  refine ⟨?_, ?_, ?_⟩
  · rw [hst, hllm]; exact hb.resident
  · rw [live, hstr, hst]; exact hb.generating
  · rw [live, hstr, hst]; exact hb.idle

/-- A state written by `load` or `unload` is true when it promises no model that is not there, and
no generation is under way. -/
theorem lifecycle_write (hb : b.Lifecycle) {st : BackendState} (hne : st ≠ .generating)
    (loads : List LoadTask) (unloads : List UnloadTask) :
    Lifecycle { b with
      state := st
      loads := loads
      unloads := unloads } ↔ (st = .ready → b.llm = true) ∧ b.state ≠ .generating := by
  have hgen := hb.generating
  constructor
  · intro h
    refine ⟨fun hr => h.resident (.inl hr), ?_⟩
    intro hg
    have hgen' := h.generating
    simp only [live, if_neg hne, if_pos hg] at hgen hgen'
    omega
  · rintro ⟨hres, hg⟩
    rw [if_neg hg] at hgen
    refine ⟨?_, hgen.trans (if_neg hne).symm, fun _ => hgen⟩
    rintro (hr | hr)
    · exact hres hr
    · exact absurd hr hne

theorem generate_lifecycle_iff (hb : b.Lifecycle) (c : GenerateCall) :
    (b.generate c).2.Lifecycle ↔ KeepsLifecycle b (.generate c) := by
  have hgen := hb.generating
  simp only [generate, KeepsLifecycle]
  split
  · rename_i hg
    simp [hg, hb]
  · split
    · rename_i hr
      simp [hr, hb]
    · rename_i hg hr
      simp only [ne_eq, not_not] at hr
      have hllm := hb.resident (.inl hr)
      simp only [hllm, if_true, hr, true_imp_iff]
      cases hc : c.promptTokens with
      | none =>
        simp only [Option.isSome_none, Bool.false_eq_true, false_imp_iff, iff_true]
        exact hb.congr hr.symm hllm.symm rfl
      | some n =>
        simp only [Option.isSome_some, true_imp_iff]
        rw [if_neg hg] at hgen
        cases hts : c.threadStarts with
        | true =>
          simp only [if_true, iff_true]
          refine ⟨fun _ => rfl, ?_, by simp⟩
          simp only [live, List.countP_append, if_true] at hgen ⊢
          rw [hgen]
          rfl
        | false =>
          -- the state says generating, and there is no stream
          simp only [Bool.false_eq_true, if_false, iff_false]
          intro h
          have := h.generating
          simp only [live, if_true] at this hgen
          omega

theorem load_lifecycle (hb : b.Lifecycle) : b.load.2.Lifecycle := by
  simp only [load]
  split
  · exact hb
  · rename_i hr
    split
    · exact hb
    · exact (lifecycle_write hb (by simp) _ _).mpr ⟨by simp, fun hg => hr (.inr hg)⟩

theorem unload_lifecycle (hb : b.Lifecycle) : b.unload.Lifecycle := by
  simp only [unload]
  split
  · exact hb.congr rfl rfl rfl
  · rename_i i _
    split
    · exact hb
    · rename_i s hi
      split
      · exact hb.congr rfl rfl rfl
      · have hsame : s.aclose.onDoneFired = s.onDoneFired := by
          simp only [Stream.aclose]
          split <;> rfl
        have hlive := live_set hi s.aclose
        rw [hsame] at hlive
        refine ⟨hb.resident, Eq.trans ?_ hb.generating, fun h => Eq.trans ?_ (hb.idle h)⟩ <;>
        · show (b.streams.set i s.aclose).countP _ = b.live
          omega

theorem stream_lifecycle (hb : b.Lifecycle) {i : Nat} {e : Stream.Ev}
    (h : b.streamEv i e = some b') : b'.Lifecycle := by
  obtain ⟨s, s', hi, hs', rfl⟩ := streamEv_cases h
  exact streamMoved_lifecycle hb hi fun hf => Stream.fired_step hf hs'

theorem keeps_lifecycle_iff (hb : b.Lifecycle) {e : Ev} (h : step b e = some b') :
    b'.Lifecycle ↔ KeepsLifecycle b e := by
  cases e with
  | load => cases h; exact iff_of_true (load_lifecycle hb) trivial
  | loadHook k ok =>
    have hkeep (loads : List LoadTask) : Lifecycle { b with
        llm := b.llm || ok
        loads := loads } :=
      ⟨fun hr => by rw [hb.resident hr, Bool.true_or], hb.generating, hb.idle⟩
    simp only [step] at h
    split at h <;> cases h <;> exact iff_of_true (hkeep _) trivial
  | loadResume k =>
    simp only [step] at h
    split at h <;> cases h
    rename_i ok hk
    refine (lifecycle_write hb (by cases ok <;> simp) _ _).trans ?_
    rw [KeepsLifecycle, hk]
    cases ok <;> simp
  | loadCancel k =>
    simp only [step] at h
    split at h <;> cases h <;> exact iff_of_true (hb.congr rfl rfl rfl) trivial
  | unload => cases h; exact iff_of_true (unload_lifecycle hb) trivial
  | unloadClosed u timedOut =>
    refine iff_of_true ?_ trivial
    simp only [step] at h
    split at h
    · split at h
      · cases h
      · rename_i i _ s hi
        simp only [Option.map_eq_some_iff] at h
        obtain ⟨s', hs', rfl⟩ := h
        exact (streamMoved_lifecycle hb hi fun hf => Stream.fired_step hf hs').congr rfl rfl rfl
    · cases h
  | unloadHookStart u =>
    simp only [step] at h
    split at h <;> cases h
    exact iff_of_true (hb.congr rfl rfl rfl) trivial
  | unloadHook u ok =>
    have hkeep (unloads : List UnloadTask) : Lifecycle { b with
        llm := b.llm && !ok
        unloads := unloads } ↔ (ok = true → b.state ≠ .ready ∧ b.state ≠ .generating) := by
      cases ok with
      | false =>
        refine iff_of_true ?_ (by simp)
        exact hb.congr rfl (by simp) rfl
      | true =>
        simp only [Bool.not_true, Bool.and_false, true_imp_iff]
        constructor
        · intro h'
          refine ⟨fun hr => ?_, fun hg => ?_⟩
          · have := h'.resident (.inl hr); cases this
          · have := h'.resident (.inr hg); cases this
        · rintro ⟨hr, hg⟩
          exact ⟨fun h' => absurd h' (by simp [hr, hg]), hb.generating, hb.idle⟩
    simp only [step] at h
    split at h <;> cases h <;> exact hkeep _
  | unloadResume u =>
    simp only [step] at h
    split at h <;> cases h
    refine (lifecycle_write hb (by simp) _ _).trans ?_
    simp [KeepsLifecycle]
  | unloadCancel u =>
    simp only [step] at h
    split at h
    · rename_i i hu
      split at h
      · cases h
      · rename_i s hi
        simp only [Option.map_eq_some_iff] at h
        obtain ⟨s', hs', rfl⟩ := h
        refine iff_of_true ?_ (by simp [KeepsLifecycle, hu, UnloadTask.awaitsHook])
        exact (streamMoved_lifecycle hb hi fun hf => Stream.fired_step hf hs').congr rfl rfl rfl
    all_goals
      first
      | (cases h; done)
      | (rename_i hu
         cases h
         refine (lifecycle_write hb (by simp) _ _).trans ?_
         simp [KeepsLifecycle, hu, UnloadTask.awaitsHook])
  | generate c => cases h; exact generate_lifecycle_iff hb c
  | stream i e => exact iff_of_true (stream_lifecycle hb h) trivial

/-- A generate call that raises has put the state back, unless its thread did not start. -/
theorem raisesClean_of_keeps {e : Ev} (hok : KeepsLifecycle b e) : RaisesClean b e := by
  rintro c exc rfl herr
  simp only [KeepsLifecycle] at hok
  simp only [generate] at herr ⊢
  split at herr
  · rename_i hg
    simp only [hg, if_true]
  · split at herr
    · rename_i hg hr
      rw [if_neg hg, if_pos hr]
    · rename_i hg hr
      rw [if_neg hg, if_neg hr]
      simp only [ne_eq, not_not] at hr
      split at herr
      · rename_i hn
        exact hr.symm
      · rename_i n hn
        have hsome : c.promptTokens.isSome = true := by
          cases hl : b.llm <;> simp [hl] at hn
          simp [hn]
        simp only [hok hr hsome, if_true] at herr
        cases herr

/-- **The lifecycle state tells the truth exactly along the runs whose steps keep it.** In every run
of loads, unloads, generations and stream events: the model is resident in every ready or generating
state, the backend is generating exactly while one stream is live, no stream is live while loading
or unloaded, and no generate call that raises has changed the state, if and only if every step of
the run satisfies `KeepsLifecycle`. -/
theorem lifecycle_iff {ls : List Ev} (h : Run step init ls b) :
    (Always step Lifecycle init ls ∧ Guarded step RaisesClean init ls) ↔
      Guarded step KeepsLifecycle init ls := by
  rw [h.always_iff_guarded (fun _ _ _ hb hst => keeps_lifecycle_iff hb hst) lifecycle_init]
  exact ⟨And.left, fun hg => ⟨hg, hg.mono fun _ _ => raisesClean_of_keeps⟩⟩

/-- The model is loaded, a generation without tokens runs to its end, and its consumer reads it. -/
def loadAndGenerate : List Ev :=
  [.load, .loadHook 0 true, .loadResume 0,
    .generate ⟨⟨[], .returned none, none⟩, some 3, true⟩, .stream 0 .anext] ++
    .replicate 7 (.stream 0 .work) ++ [.stream 0 .callback, .stream 0 .getResume]

def loadAndGenerateEnd : ThreadedBackend := (exec step init loadAndGenerate).get (by decide +kernel)

theorem lifecycle_iff_loadAndGenerate :
    Run step init loadAndGenerate loadAndGenerateEnd ∧
      loadAndGenerateEnd.state = .ready ∧ Always step Lifecycle init loadAndGenerate := by
  have hrun : Run step init loadAndGenerate loadAndGenerateEnd :=
    run_of_exec (by simp [loadAndGenerateEnd])
  exact ⟨hrun, by decide +kernel, ((lifecycle_iff hrun).mpr (by decide +kernel)).1⟩

/-- An ordinary unload of an idle backend: the hook has run, the coroutine has not come back. -/
def unloadReady : List Ev :=
  [.load, .loadHook 0 true, .loadResume 0, .unload, .unloadHookStart 0, .unloadHook 0 true]

def unloadReadyEnd : ThreadedBackend := (exec step init unloadReady).get (by decide)

/-- The state says ready, and there is no model. -/
theorem unloadReady_not_resident :
    ∃ b, Run step init unloadReady b ∧ b.state = .ready ∧ b.llm = false :=
  ⟨unloadReadyEnd, run_of_exec (by simp [unloadReadyEnd]), by decide, by decide⟩

end ThreadedBackend
end InferenceEngine
