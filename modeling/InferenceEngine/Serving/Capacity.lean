import InferenceEngine.Serving.Calls
import InferenceEngine.Serving.Node

/-!
# Serving.Capacity

Capacity of a backend that serves one request at a time: the scheduler slot and the registry slot of
a request are handed on by `finish_generation`, the backend by `on_done`. `Owned` ties them: a
stream whose `on_done` has not fired belongs to a request that is not finished. So a free entry is a
ready backend (`Linked.free`), and a request placed on it does not find it busy.

* `StepKind`: what a step of the application does to its calls and its requests.
* `step_linked`: the steps that satisfy `KeepsCapacity` keep the invariant `Linked`.
* `handsOn_iff`: the result over runs; `interruptedClose_busy` is a run that loses it.
-/

namespace InferenceEngine

namespace BackendRegistry

/-- The bound on the requests in flight on entry `i`. -/
def limit (r : BackendRegistry) (i : Nat) : Option Nat := r.entries[i]?.map (·.maxInFlight)

variable {r : BackendRegistry}

theorem modifyEntry_limit {i : Nat} {f : BackendEntry → BackendEntry}
    {hf : ∀ e, (f e).order = e.order} (hm : ∀ e, (f e).maxInFlight = e.maxInFlight) (j : Nat) :
    (r.modifyEntry i f hf).limit j = r.limit j := by
  simp only [limit, modifyEntry, List.getElem?_modify]
  cases r.entries[j]? with
  | none => rfl
  | some e => by_cases hij : i = j <;> simp [hij, hm]

@[simp] theorem modifyInFlight_limit (i : Nat) (f : Nat → Nat) (j : Nat) :
    (r.modifyInFlight i f).limit j = r.limit j := by
  apply modifyEntry_limit
  intro e
  rfl

@[simp] theorem refresh_limit (i : Nat) (backend : Option BackendView) (available : Bool)
    (j : Nat) : (r.refresh i backend available).limit j = r.limit j := by
  apply modifyEntry_limit
  intro e
  rfl

end BackendRegistry

namespace App

variable {digest : List UInt8 → Nat} {s s' : App}

/-- In this event, `generate` of entry `i`'s backend does `r`. -/
def Ev.Generates (i : Nat) (r : Except Exc Nat) : Ev → Prop
  | .start _ _ _ gen | .resume _ _ gen => gen i = r
  | _ => False

theorem Ev.generates_withGenerate {e : Ev} {i : Nat} {r r' : Except Exc Nat}
    (h : (e.withGenerate i r).Generates i r') : r' = r := by
  cases e with
  | start c ans now gen => simpa [Generates, withGenerate] using h.symm
  | resume k now gen => simpa [Generates, withGenerate] using h.symm
  | _ => cases h

/-- Entry `i` has room for one more request. -/
def Room (s : App) (i : Nat) : Prop :=
  ∃ e, s.registry.entries[i]? = some e ∧ e.inFlight < e.maxInFlight

/-- What a step does to the calls and the requests. -/
inductive StepKind (e : Ev) (s s' : App) : Prop where
  | quiet (hends : s'.ends = s.ends ∨ ∃ exc, s'.ends = s.ends ++ [.raised exc] ∨
        s'.ends = s.ends ++ [.acquireRaised exc]) (hserved : s'.served = s.served)
  | finished (n : Nat) (f : FinishCall) (v v' : Served) (he : e = .finish n f)
      (hends : s'.ends = s.ends) (hn : s.served[n]? = some v)
      (hserved : s'.served = s.served.set n v') (hv' : v'.finished = true)
  | refused (i : Nat) (exc : Exc) (hroom : s.Room i) (hgen : e.Generates i (.error exc))
      (hends : s'.ends = s.ends ++ [.generateRaised i exc]) (hserved : s'.served = s.served)
  | returned (v : Served) (hroom : s.Room v.registryLease.entry)
      (hgen : e.Generates v.registryLease.entry (.ok v.stream)) (hv : v.finished = false)
      (hends : s'.ends = s.ends ++ [.returned s.served.length])
      (hserved : s'.served = s.served ++ [v])

theorem StepKind.congr {s₁ : App} {e : Ev} (h : StepKind e s₁ s') (hends : s₁.ends = s.ends)
    (hserved : s₁.served = s.served) (hreg : s₁.registry = s.registry) : StepKind e s s' := by
  cases h with
  | quiet h hs => exact .quiet (by rw [← hends]; exact h) (hs.trans hserved)
  | finished n f v v' he h hn hs hv' =>
    exact .finished n f v v' he (h.trans hends) (by rw [← hserved]; exact hn)
      (by rw [← hserved]; exact hs) hv'
  | refused i exc hroom hgen h hs =>
    exact .refused i exc (by rw [Room, ← hreg]; exact hroom) hgen (by rw [← hends]; exact h)
      (hs.trans hserved)
  | returned v hroom hgen hv h hs =>
    exact .returned v (by rw [Room, ← hreg]; exact hroom) hgen hv
      (by rw [← hends, ← hserved]; exact h) (by rw [← hserved]; exact hs)

theorem place_kind (digest : List UInt8 → Nat) {e : Ev} {gen : Nat → Except Exc Nat}
    (he : ∀ i, e.Generates i (gen i)) (p : Pending) (w : ℚ) :
    StepKind e s (s.place digest p w gen) ∧
      ∀ j, (s.place digest p w gen).registry.limit j = s.registry.limit j := by
  simp only [place]
  split
  · exact ⟨.quiet (.inr ⟨_, .inl rfl⟩) rfl, fun _ => rfl⟩
  · rename_i reason _
    cases reason <;> exact ⟨.quiet (.inr ⟨_, .inl rfl⟩) rfl, fun _ => rfl⟩
  · exact ⟨.quiet (.inr ⟨_, .inr rfl⟩) rfl, fun _ => rfl⟩
  · rename_i rl registry hacq
    obtain ⟨hheld, rfl, en, hen, -, hlt⟩ := Router.acquire_ok hacq
    have hgens := he rl.entry
    cases hgen : gen rl.entry with
    | error exc =>
      rw [hgen] at hgens
      refine ⟨.refused rl.entry exc ⟨en, hen, hlt⟩ hgens rfl rfl, fun j => ?_⟩
      show ((rl.release _).2).limit j = s.registry.limit j
      simp [RegistryLease.release, hheld]
    | ok stream =>
      rw [hgen] at hgens
      refine ⟨.returned _ ⟨en, hen, hlt⟩ hgens rfl rfl rfl, fun j => ?_⟩
      simp [ended]

theorem afterAdmit_kind (digest : List UInt8 → Nat) {e : Ev} {gen : Nat → Except Exc Nat}
    (he : ∀ i, e.Generates i (gen i)) (p : Pending) (a : Admission) :
    StepKind e s (s.afterAdmit digest p gen a) ∧
      ∀ j, (s.afterAdmit digest p gen a).registry.limit j = s.registry.limit j := by
  cases a with
  | lease w => exact place_kind digest he p w
  | saturated exc => exact ⟨.quiet (.inr ⟨_, .inl rfl⟩) rfl, fun _ => rfl⟩
  | cancelled => exact ⟨.quiet (.inr ⟨_, .inl rfl⟩) rfl, fun _ => rfl⟩
  | suspended => exact ⟨.quiet (.inl rfl) rfl, fun _ => rfl⟩

theorem step_kind (hb : s.Books 0) {e : Ev} (hst : step digest s e = some s') :
    StepKind e s s' ∧ ∀ j, s'.registry.limit j = s.registry.limit j := by
  cases e with
  | start c ans now gen =>
    cases hst
    simp only [startGenerationCore]
    split
    · exact ⟨.quiet (.inr ⟨_, .inl rfl⟩) rfl, fun _ => rfl⟩
    · obtain ⟨hkind, hlim⟩ := afterAdmit_kind digest (e := .start c ans now gen)
        (fun _ => rfl) (s := { s with
          gateway := (s.gateway.authorizeToken c.auth ans).2
          scheduler := (s.scheduler.admitStart ⟨_, c⟩ now).2 }) ⟨_,
            c⟩ (s.scheduler.admitStart ⟨_, c⟩ now).1
      exact ⟨hkind.congr rfl rfl rfl, hlim⟩
  | resume k now gen =>
    simp only [step] at hst
    split at hst <;> cases hst
    rename_i p a sched _
    obtain ⟨hkind, hlim⟩ := afterAdmit_kind digest (e := .resume k now gen)
      (fun _ => rfl) (s := { s with scheduler := sched }) p a
    exact ⟨hkind.congr rfl rfl rfl, hlim⟩
  | interrupt k i =>
    simp only [step, Option.map_eq_some_iff] at hst
    obtain ⟨sched, -, rfl⟩ := hst
    exact ⟨.quiet (.inl rfl) rfl, fun _ => rfl⟩
  | finish n f =>
    simp only [step] at hst
    split at hst
    · rename_i v hn
      split at hst
      · cases hst
      · rename_i hv
        cases hst
        obtain ⟨hfin, -⟩ := finishGeneration_finished
          (hb.held v (List.mem_of_getElem? hn) (by simpa using hv)) f
        refine ⟨.finished n f v _ rfl hfin.ends hn rfl hfin.finished, fun j => ?_⟩
        simp [hfin.registry]
    · cases hst
  | refresh i backend available => cases hst; exact ⟨.quiet (.inl rfl) rfl, fun j => by simp⟩
  | beginDrain => cases hst; exact ⟨.quiet (.inl rfl) rfl, fun _ => rfl⟩

end App

namespace ThreadedBackend

structure Serving (b : ThreadedBackend) : Prop where
  lifecycle : b.Lifecycle
  exclusive : b.Exclusive
  loaded : b.state = .ready ∨ b.state = .generating
  unloads : b.unloads = []
  told : ∀ s ∈ b.streams, s.exhausted = true → s.onDoneFired = true

variable {b b' : ThreadedBackend}

theorem serving_loaded : loaded.Serving where
  lifecycle := ⟨fun _ => rfl, rfl, fun _ => rfl⟩
  exclusive := ⟨by simp [loaded], by simp [loaded, live], .inl (by simp [NoUnload, loaded])⟩
  loaded := .inl rfl
  unloads := rfl
  told := by simp [loaded]

theorem Serving.noUnload (hb : b.Serving) : b.NoUnload := by
  simp [NoUnload, hb.unloads]

theorem stream_serving (hb : b.Serving) {j : Nat} {e : Stream.Ev}
    (hok : KeepsExclusive b (.stream j e)) (h : b.step (.stream j e) = some b') : b'.Serving := by
  have hlife := stream_lifecycle hb.lifecycle h
  have hexcl := stream_exclusive hb.exclusive hok h
  obtain ⟨s, s', hj, hs', rfl⟩ := streamEv_cases h
  refine ⟨hlife, hexcl, ?_, by simpa using hb.unloads, ?_⟩
  · simp only [streamMoved]
    split
    · rcases hb.loaded with h | h <;> simp [onGenerationDone, h]
    · exact hb.loaded
  · intro x hx
    rw [streamMoved_streams] at hx
    rcases List.mem_or_eq_of_mem_set hx with hx | rfl
    · exact hb.told x hx
    · exact fun hx' => Stream.exhausted_fired_step (hb.told s (List.mem_of_getElem? hj)) hs' hx'

/-- `generate` on a ready backend: its own exceptions leave it ready, a stream that starts is live,
and a thread that does not start leaves it generating. -/
theorem generate_ready (hb : b.Serving) (hr : b.state = .ready) (c : GenerateCall) :
    KeepsLifecycle b (.generate c) ∧
      ((∃ exc, b.generate c = (.error exc, b) ∧ ∀ m, exc ≠ .backendBusy m) ∨
       (∃ n, b.generate c = (.ok b.streams.length, { b with
          state := .generating
          streams := b.streams ++ [.init c.producer n]
          active := some b.streams.length }))) ∨
    ¬ KeepsLifecycle b (.generate c) ∧
      ∃ exc, b.generate c = (.error exc, { b with state := .generating }) := by
  have hllm := hb.lifecycle.resident (.inl hr)
  simp only [generate, hr, reduceCtorEq, if_false, ne_eq, not_true, hllm, if_true, KeepsLifecycle]
  cases hp : c.promptTokens with
  | none =>
    refine .inl ⟨by simp, .inl ⟨.other "prompt tokens", ?_, by simp⟩⟩
    cases b
    simp_all
  | some n =>
    cases ht : c.threadStarts with
    | true => exact .inl ⟨by simp, .inr ⟨n, rfl⟩⟩
    | false => exact .inr ⟨fun hok => by simp at hok, _, rfl⟩

theorem generate_serving (hb : b.Serving) {c : GenerateCall}
    (hok : KeepsLifecycle b (.generate c)) : (b.generate c).2.Serving := by
  have hlife := (generate_lifecycle_iff hb.lifecycle c).mpr hok
  have hexcl := generate_exclusive hb.exclusive (c := c) fun _ => hb.noUnload
  rcases hb.loaded with hr | hg
  · rcases generate_ready hb hr c with ⟨-, ⟨exc, h, -⟩ | ⟨n, h⟩⟩ | ⟨hno, -⟩
    · rw [h]; exact hb
    · rw [h] at hlife hexcl ⊢
      refine ⟨hlife, hexcl, .inr rfl, hb.unloads, ?_⟩
      intro s hs
      rcases List.mem_append.mp hs with hs | hs
      · exact hb.told s hs
      · rw [List.mem_singleton.mp hs]; simp [Stream.init]
    · exact absurd hok hno
  · have h : b.generate c = (.error (.backendBusy "a generation is already in progress"), b) := by
      simp [generate, hg]
    rw [h]; exact hb

/-- With every stream done, the backend is ready and no worker is in its loop. -/
theorem Serving.ready_of_done (hb : b.Serving) (h : ∀ s ∈ b.streams, s.onDoneFired = true) :
    b.state = .ready ∧ b.Idle := by
  have hlive : b.live = 0 := by
    rw [live, List.countP_eq_zero]
    intro s hs
    simp [h s hs]
  have hgen := hb.lifecycle.generating
  rw [hlive] at hgen
  refine ⟨hb.loaded.resolve_right fun hg => ?_,
    fun s hs => (hb.exclusive.prompt s hs).fired (h s hs)⟩
  rw [if_pos hg] at hgen
  cases hgen

end ThreadedBackend

namespace Node

open Lts

/-- The request is placed on the backend and not finished. -/
def Holds (cfg : NodeConfig) (v : Served) : Prop :=
  v.finished = false ∧ v.registryLease.entry = cfg.entry

/-- A stream whose `on_done` has not fired belongs to a request that is not finished. -/
def Owned (cfg : NodeConfig) (s : Node) : Prop :=
  ∀ (j : Nat) str, s.backend.streams[j]? = some str → str.onDoneFired = false →
    ∃ v ∈ s.app.served, Holds cfg v ∧ v.stream = j

structure Linked (cfg : NodeConfig) (s : Node) : Prop where
  books : s.app.Books 0
  limit : s.app.registry.limit cfg.entry = some 1
  inFlight : s.app.registry.inFlight cfg.entry ≤ 1
  backend : s.backend.Serving
  owned : s.Owned cfg
  neverBusy : ∀ m, .generateRaised cfg.entry (.backendBusy m) ∉ s.app.ends

/-- No request placed on the backend has found it busy, and a free entry is a ready backend with no
worker in its loop. -/
structure HandsOn (cfg : NodeConfig) (s : Node) : Prop where
  neverBusy : ∀ m, .generateRaised cfg.entry (.backendBusy m) ∉ s.app.ends
  free : s.app.registry.inFlight cfg.entry = 0 → s.backend.state = .ready ∧ s.backend.Idle

/-- The steps that hand capacity on in order:

* a call that reaches `generate` gets its worker thread started;
* no join times out on a worker that is not past its loop;
* no task is cancelled in the await of `aclose` before `on_done` has fired. -/
def KeepsCapacity (digest : List UInt8 → Nat) (cfg : NodeConfig) (s : Node) : Ev → Prop
  | .app e call =>
    ∀ app ∈ s.app.step digest (e.withGenerate cfg.entry (s.backend.generate call).1),
      s.app.ranGenerate app cfg.entry = true →
        ThreadedBackend.KeepsLifecycle s.backend (.generate call)
  | .closed i timedOut _ => timedOut = true → ∀ r ∈ s.request cfg i, r.2.worker.past = true
  | .closeCancelled i _ => ∀ r ∈ s.request cfg i, r.2.onDoneFired = true
  | _ => True

variable {digest : List UInt8 → Nat} {cfg : NodeConfig} {s s' : Node}

theorem inFlight_eq (hb : s.app.Books 0) : s.app.registry.inFlight cfg.entry =
    s.app.served.countP fun v => !v.finished && v.registryLease.entry == cfg.entry :=
  hb.inFlight cfg.entry

/-- A free entry has no stream under way. -/
theorem Linked.done (h : s.Linked cfg) (hfree : s.app.registry.inFlight cfg.entry = 0) :
    ∀ str ∈ s.backend.streams, str.onDoneFired = true := by
  intro str hstr
  by_contra hno
  obtain ⟨j, hj⟩ := List.getElem?_of_mem hstr
  obtain ⟨v, hv, ⟨hf, he⟩, -⟩ := h.owned j str hj (by simpa using hno)
  rw [inFlight_eq h.books, List.countP_eq_zero] at hfree
  exact hfree v hv (by simp [hf, he])

theorem Linked.handsOn (h : s.Linked cfg) : s.HandsOn cfg :=
  ⟨h.neverBusy, fun hfree => h.backend.ready_of_done (h.done hfree)⟩

theorem Linked.free_of_room (h : s.Linked cfg) (hroom : s.app.Room cfg.entry) :
    s.app.registry.inFlight cfg.entry = 0 := by
  obtain ⟨en, hen, hlt⟩ := hroom
  have hlim := h.limit
  simp only [BackendRegistry.limit, hen, Option.map_some, Option.some.injEq] at hlim
  simp only [BackendRegistry.inFlight, hen, Option.map_some, Option.getD_some]
  omega

theorem Linked.ready_of_room (h : s.Linked cfg) (hroom : s.app.Room cfg.entry) :
    s.backend.state = .ready :=
  (h.handsOn.free (h.free_of_room hroom)).1

theorem sync_linked (h : s.Linked cfg) : (sync cfg s).Linked cfg where
  books := by
    have hst : App.step (fun _ => 0) s.app (.refresh cfg.entry _ _) = some (sync cfg s).app := rfl
    exact App.step_books h.books hst
  limit := by simpa [sync] using h.limit
  inFlight := by
    have := h.inFlight
    simpa only [sync, BackendRegistry.refresh_inFlight] using this
  backend := h.backend
  owned := h.owned
  neverBusy := h.neverBusy

theorem init_linked (cfg : NodeConfig) : (init cfg).Linked cfg := by
  refine sync_linked ⟨App.books_init cfg.app, ?_, ?_, ThreadedBackend.serving_loaded, ?_, ?_⟩
  · have := cfg.maxInFlight
    simp only [BackendRegistry.limit, App.init, BackendRegistry.ofEntries, List.getElem?_mapIdx,
      Option.map_map]
    exact this
  · rw [inFlight_eq (s := ⟨.init cfg.app, .loaded⟩) (App.books_init cfg.app)]
    simp [App.init]
  · intro j str hj
    simp [ThreadedBackend.loaded] at hj
  · simp [App.init]

theorem stream_linked (h : s.Linked cfg) {j : Nat} {e : Stream.Ev} {b : ThreadedBackend}
    (hok : ThreadedBackend.KeepsExclusive s.backend (.stream j e))
    (hst : s.backend.step (.stream j e) = some b) : Linked cfg { s with backend := b } := by
  refine ⟨h.books, h.limit, h.inFlight, ThreadedBackend.stream_serving h.backend hok hst, ?_,
    h.neverBusy⟩
  obtain ⟨str, str', hj, hs', rfl⟩ := ThreadedBackend.streamEv_cases hst
  intro i x hi hx
  simp only [ThreadedBackend.streamMoved_streams, List.getElem?_set] at hi
  split at hi
  · rename_i hij
    subst hij
    split at hi
    · cases hi
      refine h.owned j str hj ?_
      by_contra hf
      rw [Stream.fired_step (by simpa using hf) hs'] at hx
      cases hx
    · cases hi
  · exact h.owned i x hi hx

theorem Linked.of_app (h : s.Linked cfg) {app : App} {b : ThreadedBackend} (hbooks : app.Books 0)
    (hlim : ∀ j, app.registry.limit j = s.app.registry.limit j)
    (hcount : app.served.countP (fun v => !v.finished && v.registryLease.entry == cfg.entry) ≤ 1)
    (hb : b.Serving) (howned : Owned cfg ⟨app, b⟩)
    (hbusy : ∀ m, .generateRaised cfg.entry (.backendBusy m) ∈ app.ends →
      .generateRaised cfg.entry (.backendBusy m) ∈ s.app.ends) : Linked cfg ⟨app, b⟩ where
  books := hbooks
  limit := (hlim cfg.entry).trans h.limit
  inFlight := by
    rw [inFlight_eq (s := ⟨app, b⟩) hbooks]
    exact hcount
  backend := hb
  owned := howned
  neverBusy := fun m hm => h.neverBusy m (hbusy m hm)

theorem mem_set_of_ne {l : List Served} {n : Nat} {v v' w : Served} (hn : l[n]? = some v)
    (hw : w ∈ l) (hne : w ≠ v) : w ∈ l.set n v' := by
  obtain ⟨k, hk⟩ := List.getElem?_of_mem hw
  have hkn : n ≠ k := by
    rintro rfl
    rw [hn, Option.some.injEq] at hk
    exact hne hk.symm
  exact List.mem_of_getElem? (by rw [List.getElem?_set_ne hkn]; exact hk)

theorem Owned.mono (h : s.Owned cfg) {app : App}
    (hserved : ∀ v ∈ s.app.served, Holds cfg v → v ∈ app.served) :
    Owned cfg ⟨app, s.backend⟩ := by
  intro j str hj hf
  obtain ⟨v, hv, hh, hvj⟩ := h j str hj hf
  exact ⟨v, hserved v hv hh, hh, hvj⟩

theorem Linked.of_served (h : s.Linked cfg) {app : App} (hbooks : app.Books 0)
    (hlim : ∀ j, app.registry.limit j = s.app.registry.limit j)
    (hserved : app.served = s.app.served)
    (hbusy : ∀ m, .generateRaised cfg.entry (.backendBusy m) ∈ app.ends →
      .generateRaised cfg.entry (.backendBusy m) ∈ s.app.ends) :
    Linked cfg ⟨app, s.backend⟩ := by
  have hcount := h.inFlight
  rw [inFlight_eq h.books] at hcount
  refine h.of_app hbooks hlim ?_ h.backend (h.owned.mono fun v hv _ => ?_) hbusy
  · rw [hserved]
    exact hcount
  · rw [hserved]
    exact hv

/-- A step that finishes a request, which owns no stream under way. -/
theorem Linked.of_finished (h : s.Linked cfg) {app : App} {n : Nat} {v v' : Served}
    (hbooks : app.Books 0) (hlim : ∀ j, app.registry.limit j = s.app.registry.limit j)
    (hn : s.app.served[n]? = some v) (hserved : app.served = s.app.served.set n v')
    (hv' : v'.finished = true)
    (hdone : ∀ str, Holds cfg v → s.backend.streams[v.stream]? = some str → str.onDoneFired = true)
    (hends : app.ends = s.app.ends) : Linked cfg ⟨app, s.backend⟩ := by
  have hcount := h.inFlight
  rw [inFlight_eq h.books] at hcount
  refine h.of_app hbooks hlim ?_ h.backend ?_ fun m hm => by rw [hends] at hm; exact hm
  · have hset := Count.countP_set_add (b := v')
      (p := fun v : Served => !v.finished && v.registryLease.entry == cfg.entry) hn
    simp only [hv', Bool.not_true, Bool.false_and, Bool.false_eq_true, if_false] at hset
    rw [hserved]
    omega
  · -- the owner of a stream under way is another request
    intro j x hj hx
    obtain ⟨w, hw, hh, rfl⟩ := h.owned j x hj hx
    refine ⟨w, ?_, hh, rfl⟩
    rw [hserved]
    refine mem_set_of_ne hn hw ?_
    rintro rfl
    rw [hdone x hh hj] at hx
    cases hx

/-- A request on a free entry gets the stream that `generate` has just added: the others are
done. -/
theorem Linked.of_generated (h : s.Linked cfg) {app : App} {b : ThreadedBackend} {v : Served}
    {str : Stream} (hfree : s.app.registry.inFlight cfg.entry = 0) (hbooks : app.Books 0)
    (hlim : ∀ j, app.registry.limit j = s.app.registry.limit j)
    (hserved : app.served = s.app.served ++ [v]) (hv : v.finished = false)
    (hi : v.registryLease.entry = cfg.entry) (hb : b.Serving)
    (hstreams : b.streams = s.backend.streams ++ [str])
    (hstream : v.stream = s.backend.streams.length)
    (hbusy : ∀ m, .generateRaised cfg.entry (.backendBusy m) ∈ app.ends →
      .generateRaised cfg.entry (.backendBusy m) ∈ s.app.ends) : Linked cfg ⟨app, b⟩ := by
  have hdone := h.done hfree
  refine h.of_app hbooks hlim ?_ hb ?_ hbusy
  · rw [inFlight_eq h.books] at hfree
    rw [hserved, List.countP_append, hfree]
    simp [hv, hi]
  · intro j x hj hf
    simp only [hstreams, List.getElem?_append] at hj
    split at hj
    · have := hdone x (List.mem_of_getElem? hj)
      rw [this] at hf
      cases hf
    · refine ⟨v, by simp [hserved], ⟨hv, hi⟩, ?_⟩
      rw [List.getElem?_singleton] at hj
      split at hj
      · omega
      · cases hj

theorem finished_entry_ne {e : App.Ev} {r : Except Exc Nat} {n : Nat} {f : App.FinishCall}
    {v : Served} (hfin : s.app.finishesOn cfg.entry e = false)
    (he : e.withGenerate cfg.entry r = .finish n f) (hn : s.app.served[n]? = some v) :
    v.registryLease.entry ≠ cfg.entry := by
  cases e with
  | finish n' f' =>
    simp only [App.Ev.withGenerate, App.Ev.finish.injEq] at he
    simpa [App.finishesOn, he.1, hn] using hfin
  | start c ans now gen => simp [App.Ev.withGenerate] at he
  | resume k now gen => simp [App.Ev.withGenerate] at he
  | _ => simp [App.Ev.withGenerate] at he

theorem app_linked (h : s.Linked cfg) {e : App.Ev} {call : GenerateCall} {app : App}
    (hfin : s.app.finishesOn cfg.entry e = false)
    (hst : s.app.step digest (e.withGenerate cfg.entry (s.backend.generate call).1) = some app)
    (hok : s.app.ranGenerate app cfg.entry = true →
      ThreadedBackend.KeepsLifecycle s.backend (.generate call)) :
    Linked cfg ⟨app, if s.app.ranGenerate app cfg.entry then (s.backend.generate call).2
      else s.backend⟩ := by
  have hbooks := App.step_books h.books hst
  obtain ⟨hkind, hlim⟩ := App.step_kind h.books hst
  have hcount := h.inFlight
  rw [inFlight_eq h.books] at hcount
  cases hkind with
  | quiet hends hserved =>
    have hran : s.app.ranGenerate app cfg.entry = false := by
      rcases hends with hends | ⟨exc, hends | hends⟩ <;> simp [App.ranGenerate, hends]
    simp only [hran, Bool.false_eq_true, if_false]
    refine h.of_served hbooks hlim hserved fun m hm => ?_
    rcases hends with hends | ⟨exc, hends | hends⟩ <;> simpa [hends] using hm
  | finished n f v v' he hends hn hserved hv' =>
    have hran : s.app.ranGenerate app cfg.entry = false := by simp [App.ranGenerate, hends]
    have hne := finished_entry_ne hfin he hn
    simp only [hran, Bool.false_eq_true, if_false]
    exact h.of_finished hbooks hlim hn hserved hv' (fun str hh _ => absurd hh.2 hne) hends
  | refused i exc hroom hgen hends hserved =>
    by_cases hi : i = cfg.entry
    · subst hi
      have hran : s.app.ranGenerate app cfg.entry = true := by simp [App.ranGenerate, hends]
      have hgen := App.Ev.generates_withGenerate hgen
      simp only [hran, if_true]
      rcases ThreadedBackend.generate_ready h.backend (h.ready_of_room hroom) call with
        ⟨-, ⟨exc', hg, hbusy⟩ | ⟨k, hg⟩⟩ | ⟨hno, -⟩
      · rw [hg] at hgen ⊢
        cases hgen
        refine h.of_served hbooks hlim hserved fun m hm => ?_
        simpa [hends, (hbusy m).symm] using hm
      · rw [hg] at hgen; cases hgen
      · exact absurd (hok hran) hno
    · have hran : s.app.ranGenerate app cfg.entry = false := by simp [App.ranGenerate, hends, hi]
      simp only [hran, Bool.false_eq_true, if_false]
      refine h.of_served hbooks hlim hserved fun m hm => ?_
      simpa [hends, Ne.symm hi] using hm
  | returned v hroom hgen hv hends hserved =>
    have hends' : ∀ m, .generateRaised cfg.entry (.backendBusy m) ∈ app.ends →
        .generateRaised cfg.entry (.backendBusy m) ∈ s.app.ends := by
      intro m hm
      simpa [hends] using hm
    have hnew : app.served[s.app.served.length]? = some v := by simp [hserved]
    by_cases hi : v.registryLease.entry = cfg.entry
    · have hran : s.app.ranGenerate app cfg.entry = true := by
        simp [App.ranGenerate, hends, hnew, hi]
      rw [hi] at hroom hgen
      have hgen := App.Ev.generates_withGenerate hgen
      have hfree := h.free_of_room hroom
      simp only [hran, if_true]
      rcases ThreadedBackend.generate_ready h.backend (h.ready_of_room hroom) call with
        ⟨hkeep, ⟨exc', hg, hbusy⟩ | ⟨k, hg⟩⟩ | ⟨-, exc', hg⟩
      · rw [hg] at hgen; cases hgen
      · have hserving := ThreadedBackend.generate_serving h.backend hkeep
        rw [hg] at hgen hserving ⊢
        simp only [Except.ok.injEq] at hgen
        exact h.of_generated hfree hbooks hlim hserved hv hi hserving rfl (by omega) hends'
      · rw [hg] at hgen; cases hgen
    · have hran : s.app.ranGenerate app cfg.entry = false := by
        simp [App.ranGenerate, hends, hnew, hi]
      simp only [hran, Bool.false_eq_true, if_false]
      refine h.of_app hbooks hlim ?_ h.backend
        (h.owned.mono fun w hw _ => by rw [hserved]; exact List.mem_append_left _ hw) hends'
      rw [hserved, List.countP_append]
      simpa [hi] using hcount

theorem finish_linked (h : s.Linked cfg) {i : Nat} {v : Served} {f : EdgeFinish} {str : Stream}
    (hi : s.app.served[i]? = some v) (hstr : s.backend.streams[v.stream]? = some str)
    (hdone : str.onDoneFired = true) (hst : s.finish digest cfg i v s.backend f = some s') :
    s'.Linked cfg := by
  simp only [finish, hstr, Option.map_eq_some_iff] at hst
  obtain ⟨app, hst, rfl⟩ := hst
  refine sync_linked ?_
  obtain ⟨hkind, hlim⟩ := App.step_kind h.books hst
  cases hkind with
  | quiet hends hserved =>
    refine h.of_served (App.step_books h.books hst) hlim hserved fun m hm => ?_
    rcases hends with hends | ⟨exc, hends | hends⟩ <;> simpa [hends] using hm
  | refused j exc hroom hgen hends hserved => cases hgen
  | returned w hroom hgen hv hends hserved => cases hgen
  | finished n f' w w' he hends hn hserved hw' =>
    cases he
    rw [hi] at hn
    cases hn
    refine h.of_finished (App.step_books h.books hst) hlim hi hserved hw' (fun x _ hx => ?_) hends
    rw [hstr, Option.some.injEq] at hx
    rw [← hx]
    exact hdone

theorem finish_frees (h : s.Linked cfg) {i : Nat} {v : Served} {b : ThreadedBackend}
    {f : EdgeFinish} (hi : s.app.served[i]? = some v) (hv : Holds cfg v)
    (hst : s.finish digest cfg i v b f = some s') :
    s'.app.registry.inFlight cfg.entry = 0 ∧ s'.backend = b := by
  simp only [finish] at hst
  split at hst
  · cases hst
  · rename_i str _
    simp only [Option.map_eq_some_iff] at hst
    obtain ⟨app, hst, rfl⟩ := hst
    refine ⟨?_, rfl⟩
    simp only [App.step, hi, hv.1, Bool.false_eq_true, if_false, Option.some.injEq] at hst
    have hheld := h.books.held v (List.mem_of_getElem? hi) hv.1
    obtain ⟨hfin, -⟩ := App.finishGeneration_finished hheld (f.call str)
    have hone := h.inFlight
    subst hst
    simp only [sync, BackendRegistry.refresh_inFlight, hfin.registry]
    rw [BackendRegistry.modifyInFlight_inFlight _ hheld.entry, if_pos hv.2]
    omega

theorem request_cases {i : Nat} {v : Served} {str : Stream}
    (h : s.request cfg i = some (v, str)) :
    s.app.served[i]? = some v ∧ Holds cfg v ∧ s.backend.streams[v.stream]? = some str := by
  simp only [request] at h
  split at h
  · rename_i w hw
    split at h
    · rename_i hh
      simp only [Option.map_eq_some_iff, Prod.mk.injEq] at h
      obtain ⟨x, hx, rfl, rfl⟩ := h
      exact ⟨hw, hh, hx⟩
    · cases h
  · cases h

theorem streamStep_cases {b b' : ThreadedBackend} {j : Nat} {e : Stream.Ev} {str : Stream}
    (hj : b.streams[j]? = some str) (h : b.step (.stream j e) = some b') :
    ∃ str', str.step e = some str' ∧ b'.streams[j]? = some str' := by
  obtain ⟨r, str', hr, hs', rfl⟩ := ThreadedBackend.streamEv_cases h
  rw [hj, Option.some.injEq] at hr
  subst hr
  have hlt := (List.getElem?_eq_some_iff.mp hj).1
  exact ⟨str', hs', by simp [hlt]⟩

/-- A step of a stream that is not the end of an `aclose` after a timeout. -/
theorem keepsExclusive_stream {b : ThreadedBackend} {j : Nat} {e : Stream.Ev}
    (he : e ≠ .acloseResume true) : ThreadedBackend.KeepsExclusive b (.stream j e) :=
  fun h => absurd h he

theorem acloseResume_fired {str str' : Stream} {timedOut : Bool}
    (h : str.step (.acloseResume timedOut) = some str') : str'.onDoneFired = true := by
  simp only [Stream.step, Stream.acloseResume] at h
  split at h <;> cases h
  exact Stream.fireOnDone_fired _

theorem acloseResume_worker {str str' : Stream} {timedOut : Bool}
    (h : str.step (.acloseResume timedOut) = some str') : str'.worker = str.worker := by
  simp only [Stream.step, Stream.acloseResume] at h
  split at h <;> cases h
  exact Stream.fireOnDone_worker _

theorem step_linked (h : s.Linked cfg) {e : Ev} (hok : KeepsCapacity digest cfg s e)
    (hst : step digest cfg s e = some s') : s'.Linked cfg := by
  cases e with
  | app e call =>
    simp only [step] at hst
    split at hst
    · cases hst
    · rename_i hfin
      simp only [Option.map_eq_some_iff] at hst
      obtain ⟨app, hst, rfl⟩ := hst
      exact sync_linked (app_linked h (by simpa using hfin) hst (hok app hst))
  | worker j e =>
    simp only [step] at hst
    split at hst
    · rename_i hw
      simp only [Option.map_eq_some_iff] at hst
      obtain ⟨b, hst, rfl⟩ := hst
      refine sync_linked (stream_linked h (keepsExclusive_stream ?_) hst)
      rintro rfl
      cases hw
    · cases hst
  | edge i e =>
    simp only [step] at hst
    split at hst
    · cases hst
    · split at hst
      · rename_i v str _ hw
        simp only [Option.map_eq_some_iff] at hst
        obtain ⟨b, hst, rfl⟩ := hst
        refine sync_linked (stream_linked h (keepsExclusive_stream ?_) hst)
        rintro rfl
        cases hw.1
      · cases hst
  | closed i timedOut f =>
    simp only [step] at hst
    split at hst
    · cases hst
    · rename_i v str hr
      split at hst
      · cases hst
      · rename_i b hb
        obtain ⟨hi, hv, hstr⟩ := request_cases hr
        have hmoved : Linked cfg { s with backend := b } := by
          refine stream_linked h (fun he x hx => ?_) hb
          rw [hstr] at hx
          cases hx
          simp only [KeepsCapacity, hr] at hok
          exact hok (by simpa using he) _ rfl
        obtain ⟨str', hs', hstr'⟩ := streamStep_cases hstr hb
        exact finish_linked hmoved hi hstr' (acloseResume_fired hs') hst
  | closeCancelled i f =>
    simp only [step] at hst
    split at hst
    · cases hst
    · rename_i v str hr
      split at hst
      · cases hst
      · rename_i b hb
        obtain ⟨hi, hv, hstr⟩ := request_cases hr
        have hmoved := stream_linked h (keepsExclusive_stream (by simp)) hb
        obtain ⟨str', hs', hstr'⟩ := streamStep_cases hstr hb
        have hfired : str.onDoneFired = true := hok (v, str) hr
        exact finish_linked hmoved hi hstr' (Stream.fired_step hfired hs') hst
  | collected i f =>
    simp only [step] at hst
    split at hst
    · cases hst
    · rename_i v str hr
      split at hst
      · rename_i hc
        obtain ⟨hi, hv, hstr⟩ := request_cases hr
        have hmem := List.mem_of_getElem? hstr
        have hsound := (h.backend.exclusive.prompt str hmem).sound
        exact finish_linked h hi hstr (h.backend.told str hmem (hsound.ended none hc)) hst
      · cases hst

/-- A call that reaches `generate` and leaves capacity handed on in order gets its worker thread. -/
theorem keepsLifecycle_of_handsOn (h : s.Linked cfg) {e : App.Ev} {call : GenerateCall} {app : App}
    (hst : s.app.step digest (e.withGenerate cfg.entry (s.backend.generate call).1) = some app)
    (hran : s.app.ranGenerate app cfg.entry = true)
    (hs' : (sync cfg ⟨app, (s.backend.generate call).2⟩).HandsOn cfg) :
    ThreadedBackend.KeepsLifecycle s.backend (.generate call) := by
  by_contra hno
  obtain ⟨hkind, -⟩ := App.step_kind h.books hst
  cases hkind with
  | quiet hends hserved =>
    rcases hends with hends | ⟨exc, hends | hends⟩ <;> simp [App.ranGenerate, hends] at hran
  | finished n f v v' he hends hn hserved hv' => simp [App.ranGenerate, hends] at hran
  | refused i exc hroom hgen hends hserved =>
    have hi : i = cfg.entry := by simpa [App.ranGenerate, hends] using hran
    subst hi
    rcases ThreadedBackend.generate_ready h.backend (h.ready_of_room hroom) call with
      ⟨hkeep, -⟩ | ⟨-, exc', hg⟩
    · exact hno hkeep
    · -- the entry is free again, and the backend still generating
      have hfree := h.free_of_room hroom
      rw [inFlight_eq h.books] at hfree
      have hready := hs'.free (by
        simp only [sync, BackendRegistry.refresh_inFlight]
        rw [inFlight_eq (s := ⟨app, s.backend⟩) (App.step_books h.books hst)]
        rw [hserved]
        exact hfree)
      simp [sync, hg] at hready
  | returned v hroom hgen hv hends hserved =>
    have hi : v.registryLease.entry = cfg.entry := by
      simpa [App.ranGenerate, hends, hserved] using hran
    rw [hi] at hroom hgen
    have hgen := App.Ev.generates_withGenerate hgen
    rcases ThreadedBackend.generate_ready h.backend (h.ready_of_room hroom) call with
      ⟨hkeep, -⟩ | ⟨-, exc', hg⟩
    · exact hno hkeep
    · rw [hg] at hgen
      cases hgen

/-- A step that leaves capacity handed on in order satisfies `KeepsCapacity`. -/
theorem keepsCapacity_of_handsOn (h : s.Linked cfg) {e : Ev}
    (hst : step digest cfg s e = some s') (hs' : s'.HandsOn cfg) :
    KeepsCapacity digest cfg s e := by
  cases e with
  | worker j e => trivial
  | edge i e => trivial
  | collected i f => trivial
  | app e call =>
    intro app happ hran
    simp only [step] at hst
    split at hst
    · cases hst
    · rw [happ] at hst
      simp only [Option.map_some, Option.some.injEq, hran, if_true] at hst
      subst hst
      exact keepsLifecycle_of_handsOn h happ hran hs'
  | closed i timedOut f =>
    rintro rfl ⟨v, str⟩ hr
    have hr : s.request cfg i = some (v, str) := hr
    obtain ⟨hi, hv, hstr⟩ := request_cases hr
    simp only [step, hr] at hst
    split at hst
    · cases hst
    · rename_i b hb
      obtain ⟨hfree, rfl⟩ := finish_frees h hi hv hst
      obtain ⟨str', hx, hstr'⟩ := streamStep_cases hstr hb
      have hpast := (hs'.free hfree).2 str' (List.mem_of_getElem? hstr')
      rwa [acloseResume_worker hx] at hpast
  | closeCancelled i f =>
    rintro ⟨v, str⟩ hr
    have hr : s.request cfg i = some (v, str) := hr
    obtain ⟨hi, hv, hstr⟩ := request_cases hr
    simp only [step, hr] at hst
    split at hst
    · cases hst
    · rename_i b hb
      obtain ⟨hfree, rfl⟩ := finish_frees h hi hv hst
      obtain ⟨str', hx, hstr'⟩ := streamStep_cases hstr hb
      have hready := (hs'.free hfree).1
      -- the backend is ready, so no stream of it is under way
      have hlife := (ThreadedBackend.stream_lifecycle (i := v.stream) (e := .acloseCancel)
        h.backend.lifecycle hb).generating
      rw [hready] at hlife
      simp only [reduceCtorEq, if_false, ThreadedBackend.live, List.countP_eq_zero] at hlife
      have hfired : str'.onDoneFired = true := by
        simpa using hlife str' (List.mem_of_getElem? hstr')
      simp only [Stream.step] at hx
      split at hx <;> cases hx
      exact hfired

/-- **Capacity is handed on in order exactly along the runs that keep it.** With the model staying
loaded, in every run of requests, edges, workers and cancellations: no request that has been
admitted and placed on the backend has received a busy error from `generate`, and whenever the entry
of the backend is free the backend is ready with no worker in its loop, if and only if every step
satisfies `KeepsCapacity`. -/
theorem handsOn_iff {ls : List Ev} (h : Run (step digest cfg) (init cfg) ls s) :
    Always (step digest cfg) (HandsOn cfg) (init cfg) ls ↔
      Guarded (step digest cfg) (KeepsCapacity digest cfg) (init cfg) ls :=
  h.always_iff_guarded_of_strengthening (I := Linked cfg)
    (fun _ _ _ hs hok hst => step_linked hs hok hst) (fun _ hs => hs.handsOn)
    (fun _ _ _ hs hst hs' => keepsCapacity_of_handsOn hs hst hs') (init_linked cfg)

/-- The `ThreadedBackend` behind the one entry of `App.oneSlot`. -/
def oneBackend : NodeConfig where
  app := App.oneSlot
  entry := 0
  capabilities := ⟨"m", false⟩
  maxInFlight := rfl

/-- A request with the API key `key`, for which the model would yield one token. -/
def arrival (key : String) : Ev :=
  .app (App.request key fun _ => .ok 0) ⟨⟨["a"], .returned none, none⟩, some 1, true⟩

instance (digest : List UInt8 → Nat) (cfg : NodeConfig) (s : Node) :
    (e : Ev) → Decidable (KeepsCapacity digest cfg s e)
  | .app _ _ => inferInstanceAs (Decidable (∀ app ∈ s.app.step digest _, _ → _))
  | .closed i _ _ => inferInstanceAs (Decidable (_ → ∀ r ∈ s.request cfg i, _ = true))
  | .closeCancelled i _ => inferInstanceAs (Decidable (∀ r ∈ s.request cfg i, _ = true))
  | .worker .. | .edge .. | .collected .. => .isTrue trivial

/-- The client goes away while the worker is in the model; the edge closes the stream in time, and
the next request is served. -/
def closedInTime : List Ev :=
  [arrival "a", .worker 0 .work, .edge 0 .anext, .edge 0 .anextCancel, .edge 0 .aclose] ++
    .replicate 4 (.worker 0 .work) ++ [.closed 0 false {}, arrival "b"]

def closedInTimeEnd : Node :=
  (exec (step List.length oneBackend) (init oneBackend) closedInTime).get (by decide +kernel)

theorem handsOn_iff_closedInTime :
    Run (step List.length oneBackend) (init oneBackend) closedInTime closedInTimeEnd ∧
      closedInTimeEnd.app.ends = [.returned 0, .returned 1] ∧
      Always (step List.length oneBackend) (HandsOn oneBackend) (init oneBackend) closedInTime := by
  have hrun : Run (step List.length oneBackend) (init oneBackend) closedInTime closedInTimeEnd :=
    run_of_exec (by simp [closedInTimeEnd])
  exact ⟨hrun, by decide +kernel, (handsOn_iff hrun).mpr (by decide +kernel)⟩

/-- The same, but the task of the edge is cancelled in the await of `aclose`. -/
def interruptedClose : List Ev :=
  [arrival "a", .worker 0 .work, .edge 0 .anext, .edge 0 .anextCancel, .edge 0 .aclose,
    .closeCancelled 0 {}, arrival "b"]

def interruptedCloseEnd : Node :=
  (exec (step List.length oneBackend) (init oneBackend) interruptedClose).get (by decide +kernel)

/-- The second request is admitted and placed, and finds the backend busy. -/
theorem interruptedClose_busy :
    ∃ s, Run (step List.length oneBackend) (init oneBackend) interruptedClose s ∧
      s.app.ends = [.returned 0,
        .generateRaised 0 (.backendBusy "a generation is already in progress")] :=
  ⟨interruptedCloseEnd, run_of_exec (by simp [interruptedCloseEnd]), by decide +kernel⟩

end Node
end InferenceEngine
