import InferenceEngine.Serving.Calls
import InferenceEngine.Telemetry.RouteMetrics

/-!
# Serving.Accounts

Where the requests end, and what `RouteMetrics` is told of them. The `Ledger` numbers the requests
that pass authorization and follows each one: it waits in the queue of the scheduler, or it has a
`Served`, or it has ended. Its account is read off the way it ended (`CallEnd.account`, or the
outcome of its `finish_generation`), not off the metrics.

* `accounts_exact_iff`: throughout a run each request stands at one of the three places once, and
  the sheds, the rows and the totals of the metrics are the numbers of the requests in the accounts,
  exactly when its steps satisfy `KeepsAccounts`.
* `surrogate_unaccounted`: a request whose prefix key cannot be encoded is in no account.
-/

namespace InferenceEngine

open Lts

/-- The name of entry `i`, as configured. -/
def AppConfig.backendName (cfg : AppConfig) (i : Nat) : String :=
  ((cfg.entries.map (·.name))[i]?).getD ""

/-- The account of a call that ended so; one that returned a `Served` has none yet. -/
def CallEnd.account (cfg : AppConfig) (c : GenerationCall) : CallEnd → Option Account
  | .raised (.saturated _) => some (.shed c.routeModel)
  | .raised (.backendNotReady _) => some (.shed c.routeModel)
  | .raised (.featureUnsupported _) => some .featureRejected
  | .raised .cancelledError => some .cancelledInQueue
  | .generateRaised entry _ => some (.routed c.modelId (cfg.backendName entry) .error)
  | .returned _ | .raised _ | .acquireRaised _ => none

/-- The application, and where each authorized request is. A request is its number. -/
structure Ledger where
  app : App
  authorized : Nat
  /-- the request of each suspended call, in the order of the queue -/
  waiting : List Nat
  /-- the request of each `Served` -/
  served : List Nat
  accounts : List (Nat × Account)

namespace Ledger

def init (cfg : AppConfig) : Ledger := ⟨.init cfg, 0, [], [], []⟩

/-- The requests whose `Served` is not finished. -/
def running (l : Ledger) : List Nat :=
  ((l.served.zip (l.app.served.map (·.finished))).filter fun x => !x.2).map (·.1)

/-- The accounts of request `r`. -/
def accountsOf (l : Ledger) (r : Nat) : List Account :=
  (l.accounts.filter fun x => x.1 = r).map (·.2)

/-- The call of request `r` has run, up to `app`: it has ended, or it is suspended. -/
def after (cfg : AppConfig) (l : Ledger) (r : Nat) (c : GenerationCall) (app : App) : Ledger :=
  match app.ends[l.app.ends.length]? with
  | none => { l with app := app, waiting := l.waiting ++ [r] }
  | some (.returned _) => { l with app := app, served := l.served ++ [r] }
  | some e => { l with app := app, accounts := l.accounts ++ (e.account cfg c).toList.map (r, ·) }

/-- The application has taken the step `e`, to `app`. -/
def note (cfg : AppConfig) (l : Ledger) (app : App) : App.Ev → Ledger
  | .start c ans _ _ =>
    match (l.app.gateway.authorizeToken c.auth ans).1 with
    | .error _ => { l with app := app }
    | .ok _ => { l with authorized := l.authorized + 1 }.after cfg l.authorized c app
  | .resume k _ _ =>
    match l.waiting[k]?, l.app.scheduler.suspendedTasks[k]? with
    | some r, some p => { l with waiting := l.waiting.eraseIdx k }.after cfg r p.call app
    | _, _ => { l with app := app }
  | .finish i f =>
    match l.served[i]?, l.app.served[i]? with
    | some r, some v =>
      { l with
        app := app
        accounts := l.accounts ++
          [(r, .routed v.modelId (cfg.backendName v.registryLease.entry) f.outcome)] }
    | _, _ => { l with app := app }
  | .interrupt .. | .refresh .. | .beginDrain => { l with app := app }

def step (cfg : AppConfig) (digest : List UInt8 → Nat) (l : Ledger) (e : App.Ev) : Option Ledger :=
  (App.step digest l.app e).map fun app => l.note cfg app e

end Ledger

namespace App

variable {digest : List UInt8 → Nat} {cfg : AppConfig} {s s' : App}

def names (s : App) : List String := s.registry.entries.map (·.name)

/-- What the end `e` of a call made of the application; `s'` says of it what its account says. -/
structure Ends (cfg : AppConfig) (s : App) (c : GenerationCall) (e : CallEnd) (s' : App) :
    Prop where
  ends : s'.ends = s.ends ++ [e]
  tasks : s'.scheduler.suspendedTasks = s.scheduler.suspendedTasks
  names : s'.names = s.names
  served : s'.served.map (·.finished) =
    s.served.map (·.finished) ++ if e.served.isSome then [false] else []
  told : s'.routeMetrics.map RouteEvent.account =
    s.routeMetrics.map RouteEvent.account ++ (e.account cfg c).toList.filter Account.measured
  account : (e.account cfg c).isSome = e.served.isNone

theorem names_modifyEntry (r : BackendRegistry) (i : Nat) {f : BackendEntry → BackendEntry}
    (hf : ∀ e, (f e).order = e.order) (hname : ∀ e, (f e).name = e.name) :
    (r.modifyEntry i f hf).entries.map (·.name) = r.entries.map (·.name) := by
  refine List.ext_getElem? fun j => ?_
  simp only [BackendRegistry.modifyEntry, List.getElem?_map, List.getElem?_modify]
  cases r.entries[j]? with
  | none => rfl
  | some e => by_cases hij : i = j <;> simp [hij, hname]

theorem names_modifyInFlight (r : BackendRegistry) (i : Nat) (f : Nat → Nat) :
    (r.modifyInFlight i f).entries.map (·.name) = r.entries.map (·.name) := by
  unfold BackendRegistry.modifyInFlight
  exact names_modifyEntry r i _ fun _ => rfl

theorem names_refresh (r : BackendRegistry) (i : Nat) (backend : Option BackendView)
    (available : Bool) : (r.refresh i backend available).entries.map
      (·.name) = r.entries.map (·.name) := by
  unfold BackendRegistry.refresh
  exact names_modifyEntry r i _ fun _ => rfl

theorem entryName_eq (hnames : s.names = cfg.entries.map (·.name)) (rl : RegistryLease) :
    s.entryName rl = cfg.backendName rl.entry := by
  rw [entryName, AppConfig.backendName, ← hnames, names, List.getElem?_map]

theorem ends_raised {c : GenerationCall} {e : CallEnd} {a : Account} {evs : List RouteEvent}
    (he : e.served = none) (hends : s'.ends = s.ends ++ [e])
    (htasks : s'.scheduler.suspendedTasks = s.scheduler.suspendedTasks)
      (hnames : s'.names = s.names) (hserved : s'.served = s.served)
      (hmetrics : s'.routeMetrics = s.routeMetrics ++ evs) (ha : e.account cfg c = some a)
      (hevs : evs.map RouteEvent.account = [a].filter Account.measured) :
    Ends cfg s c e s' where
  ends := hends
  tasks := htasks
  names := hnames
  served := by rw [hserved, he]; simp
  told := by rw [hmetrics, List.map_append, hevs, ha]; rfl
  account := by rw [ha, he]; rfl

theorem names_release (s : App) (rl : RegistryLease) :
    ((rl.release s.registry).2).entries.map (·.name) = s.names := by
  rw [RegistryLease.release]
  split
  · rfl
  · exact names_modifyInFlight ..

theorem generateFailed_ends (hnames : s.names = cfg.entries.map (·.name)) (p : Pending)
    (l : SchedulerLease) (rl : RegistryLease) (exc : Exc) (hl : l.released = false) :
    Ends cfg s p.call (.generateRaised rl.entry exc)
      ((s.generateFailed p l rl).ended (.generateRaised rl.entry exc)) := by
  refine ends_raised rfl rfl ?_ (names_release s rl) rfl rfl rfl ?_
  · simp [generateFailed, releaseLease, abort, ended, SchedulerLease.release, hl]
  · simp only [List.map_singleton, RouteEvent.account]
    rw [entryName_eq hnames]
    rfl

theorem place_stuck (digest : List UInt8 → Nat) {p : Pending} (h : ¬ s.Encodable p.call) (w : ℚ)
    (gen : Nat → Except Exc Nat) :
    s.place digest p w gen = s.ended (.acquireRaised (.other "surrogates not allowed")) := by
  have hacq : s.router.acquire digest s.registry p.call.routeModel
      (s.prefixKey p.call) p.call.required =
      .error .unicodeEncode :=
    not_not.mp fun hne => h ((Router.encodes_iff_acquire digest ..).mpr hne)
  simp only [place, hacq]

theorem place_ends (hnames : s.names = cfg.entries.map (·.name)) {p : Pending}
    (henc : s.Encodable p.call) (w : ℚ) (gen : Nat → Except Exc Nat) :
    ∃ e, Ends cfg s p.call e (s.place digest p w gen) := by
  have hrel : (s.scheduler.release false).suspendedTasks = s.scheduler.suspendedTasks := by simp
  simp only [place]
  split
  · exact ⟨_, ends_raised rfl rfl hrel rfl rfl (List.append_nil _).symm rfl rfl⟩
  · rename_i reason _
    cases reason <;> exact ⟨_, ends_raised rfl rfl hrel rfl rfl rfl rfl rfl⟩
  · rename_i hacq
    exact absurd hacq ((Router.encodes_iff_acquire digest ..).mp henc)
  · rename_i rl registry hacq
    have hregistry : registry.entries.map (·.name) = s.names := by
      rw [(Router.acquire_ok hacq).registry]
      exact names_modifyInFlight ..
    cases hgen : gen rl.entry with
    | error exc =>
      have hstarted := generateFailed_ends (s := { s with
        registry := registry
        counters := s.counters.requestStarted }) (hregistry.trans hnames) p ⟨w, false⟩ rl exc rfl
      exact ⟨_, { hstarted with names := hstarted.names.trans hregistry }⟩
    | ok stream =>
      exact ⟨.returned s.served.length, rfl, rfl, hregistry, by simp [ended, CallEnd.served],
        by simp [ended, CallEnd.account], rfl⟩

/-- The call goes on from `admit`: it is suspended there, or it ends. -/
theorem afterAdmit_ends (digest : List UInt8 → Nat) (hnames : s.names = cfg.entries.map (·.name))
    {p : Pending} (gen : Nat → Except Exc Nat) {a : Admission} (ha : a ≠ .suspended) (henc : ∀ w,
      a = .lease w → s.Encodable p.call) :
    ∃ e, Ends cfg s p.call e (s.afterAdmit digest p gen a) := by
  cases a with
  | suspended => exact absurd rfl ha
  | saturated exc => exact ⟨_, ends_raised rfl rfl rfl rfl rfl rfl rfl rfl⟩
  | cancelled => exact ⟨_, ends_raised rfl rfl rfl rfl rfl (List.append_nil _).symm rfl rfl⟩
  | lease w => exact place_ends hnames (henc w rfl) w gen

/-- What `finish_generation` says of its request: nothing, when its cost cannot be computed. -/
theorem finishGeneration_told (hnames : s.names = cfg.entries.map (·.name)) (v : Served)
    (f : FinishCall) : (s.finishGeneration v f).2.2.routeMetrics.map RouteEvent.account =
      s.routeMetrics.map RouteEvent.account ++
        if f.priced then [.routed v.modelId (cfg.backendName v.registryLease.entry) f.outcome]
        else [] := by
  rw [← entryName_eq hnames]
  simp only [finishGeneration]
  cases f.priced with
  | false => simp
  | true =>
    simp only [Bool.not_true, Bool.false_eq_true, if_false, if_true]
    split <;> simp [RouteEvent.account]

/-- The steps that leave no request without an account: the prefix key of a call that is placed can
be encoded, and the cost of one that is finished can be computed. -/
def KeepsAccounts (s : App) : Ev → Prop
  | .start c ans _ _ => s.placedAtOnce c ans = true → s.Encodable c
  | .resume k _ _ => ∀ w, s.scheduler.sem.waiters[k]? = some w →
      w.task.interrupt = none → s.Encodable w.task.task.call
  | .finish _ f => f.priced = true
  | _ => True

instance (s : App) : (e : Ev) → Decidable (s.KeepsAccounts e)
  | .start c ans _ _ => inferInstanceAs (Decidable (s.placedAtOnce c ans = true → s.Encodable c))
  | .resume k _ _ =>
    match h : s.scheduler.sem.waiters[k]? with
    | none => .isTrue (by simp [KeepsAccounts, h])
    | some w =>
      decidable_of_iff (w.task.interrupt = none → s.Encodable w.task.task.call)
        (by simp [KeepsAccounts, h])
  | .finish _ f => instDecidableEqBool f.priced true
  | .interrupt .. | .refresh .. | .beginDrain => .isTrue trivial

end App

namespace Ledger

variable {digest : List UInt8 → Nat} {cfg : AppConfig} {l l' : Ledger} {r : Nat}

/-- Each request stands once: as one of `extra`, in the queue, at a `Served` that is not finished,
or at an account. The metrics were told of the accounts, in their order. -/
structure Sound (cfg : AppConfig) (extra : List Nat) (l : Ledger) : Prop where
  names : l.app.names = cfg.entries.map (·.name)
  waiting : l.waiting.length = l.app.scheduler.suspendedTasks.length
  served : l.served.length = l.app.served.length
  each : (extra ++ (l.waiting ++ (l.running ++ l.accounts.map (·.1)))).Perm
    (List.range l.authorized)
  told : (l.accounts.map (·.2)).filter Account.measured = l.app.routeMetrics.map RouteEvent.account

theorem sound_init (cfg : AppConfig) : (init cfg).Sound cfg [] where
  names := by
    simp only [init, App.names, App.init, BackendRegistry.ofEntries]
    refine List.ext_getElem? fun i => ?_
    simp [Function.comp_def]
  waiting := rfl
  served := rfl
  each := List.Perm.refl _
  told := rfl

theorem running_snoc {app : App} (hlength : l.served.length = l.app.served.length)
    (hflags : app.served.map (·.finished) = l.app.served.map (·.finished) ++ [false]) (r : Nat) :
    running { l with app := app, served := l.served ++ [r] } = l.running ++ [r] := by
  simp only [running]
  rw [hflags, List.zip_append (by simpa using hlength), List.filter_append, List.map_append]
  rfl

theorem running_congr (app : App)
    (hflags : app.served.map (·.finished) = l.app.served.map (·.finished)) (waiting : List Nat)
      (accounts : List (Nat × Account)) :
    running { l with app := app, waiting := waiting, accounts := accounts } = l.running := by
  simp only [running]
  rw [hflags]

/-- The call of `r` ends: `r` is at a `Served` or at an account. -/
theorem after_sound (h : l.Sound cfg [r]) {c : GenerationCall} {e : CallEnd} {app : App}
    (he : App.Ends cfg l.app c e app) : (l.after cfg r c app).Sound cfg [] := by
  have hend : app.ends[l.app.ends.length]? = some e := by
    rw [he.ends]
    simp
  have hwaiting := h.waiting.trans (congrArg List.length he.tasks).symm
  have hflags := he.served
  cases hserved : e.served with
  | some i =>
    have hafter : l.after cfg r c app = { l with app := app, served := l.served ++ [r] } := by
      cases e with
      | returned i => simp only [after, hend]
      | raised exc => cases hserved
      | acquireRaised exc => cases hserved
      | generateRaised entry exc => cases hserved
    have hnone : e.account cfg c = none := by
      rw [← Option.isNone_iff_eq_none, ← Option.not_isSome, he.account, hserved]
      rfl
    rw [hserved] at hflags
    have hlength := congrArg List.length hflags
    simp only [List.length_map, List.length_append, Option.isSome_some, if_true] at hlength
    rw [hafter]
    refine ⟨he.names.trans h.names, hwaiting, ?_, ?_, ?_⟩
    · simp [hlength, h.served]
    · rw [running_snoc h.served hflags]
      refine List.Perm.trans ?_ h.each
      rw [List.nil_append, List.append_assoc, List.singleton_append, List.singleton_append,
        ← List.append_assoc l.waiting, ← List.append_assoc l.waiting]
      exact List.perm_middle
    · rw [he.told, hnone, ← h.told]
      simp
  | none =>
    obtain ⟨a, ha⟩ : ∃ a, e.account cfg c = some a := by
      rw [← Option.isSome_iff_exists, he.account, hserved]
      rfl
    have hafter : l.after cfg r c app =
        { l with app := app, accounts := l.accounts ++ [(r, a)] } := by
      cases e with
      | returned i => cases hserved
      | raised exc => simp only [after, hend, ha]; rfl
      | acquireRaised exc => simp only [after, hend, ha]; rfl
      | generateRaised entry exc => simp only [after, hend, ha]; rfl
    rw [hserved] at hflags
    simp only [Option.isSome_none, Bool.false_eq_true, if_false, List.append_nil] at hflags
    have hlength := congrArg List.length hflags
    simp only [List.length_map] at hlength
    rw [hafter]
    refine ⟨he.names.trans h.names, hwaiting, h.served.trans hlength.symm, ?_, ?_⟩
    · rw [running_congr app hflags]
      refine List.Perm.trans ?_ h.each
      rw [List.nil_append, List.map_append, ← List.append_assoc l.running,
        ← List.append_assoc l.waiting]
      exact List.perm_append_singleton r _
    · rw [he.told, ha, ← h.told]
      simp

/-- The application has changed, but nothing that the ledger looks at. -/
theorem Sound.congr {extra : List Nat} (h : l.Sound cfg extra) (app : App)
    (hnames : app.names = l.app.names)
      (htasks : app.scheduler.suspendedTasks.length = l.app.scheduler.suspendedTasks.length)
      (hserved : app.served = l.app.served) (htold : app.routeMetrics = l.app.routeMetrics) :
    Sound cfg extra { l with app := app } where
  names := hnames.trans h.names
  waiting := h.waiting.trans htasks.symm
  served := by rw [hserved]; exact h.served
  each := by
    have hrunning := running_congr (l := l) app (by rw [hserved]) l.waiting l.accounts
    rw [hrunning]
    exact h.each
  told := by rw [htold]; exact h.told

theorem Sound.authorize (h : l.Sound cfg []) :
    Sound cfg [l.authorized] { l with authorized := l.authorized + 1 } := by
  refine ⟨h.names, h.waiting, h.served, ?_, h.told⟩
  rw [List.range_succ]
  exact (h.each.cons l.authorized).trans (List.perm_append_singleton l.authorized _).symm

theorem Sound.wait (h : l.Sound cfg [r]) {app : App} (hnames : app.names = l.app.names)
    (htasks : app.scheduler.suspendedTasks.length = l.app.scheduler.suspendedTasks.length + 1)
    (hserved : app.served = l.app.served) (htold : app.routeMetrics = l.app.routeMetrics) :
    Sound cfg [] { l with app := app, waiting := l.waiting ++ [r] } where
  names := hnames.trans h.names
  waiting := by simp [htasks, h.waiting]
  served := by rw [hserved]; exact h.served
  each := by
    rw [running_congr app (by rw [hserved])]
    refine List.Perm.trans ?_ h.each
    rw [List.nil_append, List.append_assoc]
    exact List.perm_middle
  told := by rw [htold]; exact h.told

theorem Sound.unwait (h : l.Sound cfg []) {k : Nat} (hk : l.waiting[k]? = some r) (app : App)
    (hnames : app.names = l.app.names)
    (htasks : app.scheduler.suspendedTasks = l.app.scheduler.suspendedTasks.eraseIdx k)
    (hserved : app.served = l.app.served) (htold : app.routeMetrics = l.app.routeMetrics) :
    Sound cfg [r] { l with app := app, waiting := l.waiting.eraseIdx k } where
  names := hnames.trans h.names
  waiting := by
    rw [htasks, List.length_eraseIdx, List.length_eraseIdx, h.waiting]
  served := by rw [hserved]; exact h.served
  each := by
    rw [running_congr app (by rw [hserved])]
    refine List.Perm.trans ?_ h.each
    obtain ⟨hlt, hget⟩ := List.getElem?_eq_some_iff.mp hk
    rw [← List.append_assoc, List.nil_append]
    refine List.Perm.append_right _ ?_
    rw [← hget]
    exact List.getElem_cons_eraseIdx_perm hlt
  told := by rw [htold]; exact h.told

theorem Sound.finish (h : l.Sound cfg []) {i : Nat} (hi : l.served[i]? = some r) {v v' : Served}
    (hv : l.app.served[i]? = some v) (hopen : v.finished = false) (hdone : v'.finished = true)
      (app : App) (hnames : app.names = l.app.names)
      (htasks : app.scheduler.suspendedTasks = l.app.scheduler.suspendedTasks)
      (hserved : app.served = l.app.served.set i v') {a : Account} (ha : a.measured = true)
      (htold : app.routeMetrics.map RouteEvent.account =
      l.app.routeMetrics.map RouteEvent.account ++ [a]) :
    Sound cfg [] { l with app := app, accounts := l.accounts ++ [(r, a)] } where
  names := hnames.trans h.names
  waiting := by rw [htasks]; exact h.waiting
  served := by rw [hserved, List.length_set]; exact h.served
  each := by
    have hflags : app.served.map (·.finished) = (l.app.served.map (·.finished)).set i true := by
      rw [hserved, List.map_set, hdone]
    have hplace : (l.served.zip (l.app.served.map (·.finished)))[i]? = some (r, false) := by
      rw [List.getElem?_zip_eq_some]
      exact ⟨hi, by rw [List.getElem?_map, hv, Option.map_some, hopen]⟩
    have hrunning : l.running.Perm
        (r :: running { l with app := app, accounts := l.accounts ++ [(r, a)] }) := by
      simp only [running, hflags, Count.zip_set hi]
      exact (Count.perm_filter_set (p := fun x : Nat × Bool => !x.2)
        (b := (r, true)) hplace rfl rfl).map
        (·.1)
    refine List.Perm.trans ?_ h.each
    rw [List.nil_append, List.nil_append, List.map_append, ← List.append_assoc (running _)]
    refine List.Perm.append_left _ ?_
    exact (List.perm_append_singleton r _).trans (hrunning.symm.append_right _)
  told := by
    rw [htold, ← h.told]
    simp [ha]

theorem after_app (l : Ledger) (r : Nat) (c : GenerationCall) (app : App) :
    (l.after cfg r c app).app = app := by
  simp only [after]
  split <;> rfl

theorem note_app (l : Ledger) (app : App) (e : App.Ev) : (l.note cfg app e).app = app := by
  cases e with
  | start c ans now gen =>
    simp only [note]
    split
    · rfl
    · exact after_app ..
  | resume k now gen =>
    simp only [note]
    split
    · exact after_app ..
    · rfl
  | finish i f =>
    simp only [note]
    split <;> rfl
  | interrupt k i => rfl
  | refresh i backend available => rfl
  | beginDrain => rfl

/-- A request that has been authorized and is at none of the places. -/
def Unaccounted (l : Ledger) : Prop :=
  ∃ r < l.authorized, l.waiting.count r + l.running.count r + (l.accountsOf r).length = 0

theorem count_accounts (l : Ledger) (r : Nat) :
    (l.accounts.map (·.1)).count r = (l.accountsOf r).length := by
  rw [accountsOf, List.length_map, ← List.countP_eq_length_filter, List.count, List.countP_map]
  exact List.countP_congr fun x _ => by simp

theorem Sound.unaccounted (h : l.Sound cfg [r]) : l.Unaccounted := by
  have hmem : r ∈ List.range l.authorized :=
    h.each.subset (List.mem_append_left _ (List.mem_singleton_self r))
  have hone : (List.range l.authorized).count r = 1 :=
    List.count_eq_one_of_mem List.nodup_range hmem
  have hcount := h.each.count_eq r
  rw [hone, List.count_append, List.count_singleton_self, List.count_append, List.count_append,
    count_accounts] at hcount
  exact ⟨r, List.mem_range.mp hmem, by omega⟩

theorem after_stuck (l : Ledger) (r : Nat) (c : GenerationCall) {app : App}
    (happ : app.ends = l.app.ends) (exc : Exc) :
      l.after cfg r c (app.ended (.acquireRaised exc)) = { l with
      app := app.ended (.acquireRaised exc) } := by
  have hend : (app.ended (.acquireRaised exc)).ends[l.app.ends.length]? =
      some (.acquireRaised exc) := by
    simp [App.ended, happ]
  simp [after, hend, CallEnd.account]

/-- The call of `r` goes on from `admit` to its end: `r` gets its place, unless the router
raises. -/
theorem afterAdmit_sound (h : l.Sound cfg [r]) (digest : List UInt8 → Nat) {p : Pending}
    (gen : Nat → Except Exc Nat) {a : Admission} (ha : a ≠ .suspended) :
    ((∀ w, a = .lease w → l.app.Encodable p.call) →
        (l.after cfg r p.call (l.app.afterAdmit digest p gen a)).Sound cfg []) ∧
      ((∃ w, a = .lease w ∧ ¬ l.app.Encodable p.call) →
        (l.after cfg r p.call (l.app.afterAdmit digest p gen a)).Unaccounted) := by
  constructor
  · intro henc
    obtain ⟨e, he⟩ := App.afterAdmit_ends digest h.names gen ha henc
    exact after_sound h he
  · rintro ⟨w, rfl, hno⟩
    rw [App.afterAdmit, App.place_stuck digest hno, after_stuck _ _ _ rfl]
    exact h.unaccounted

theorem start_sound (h : l.Sound cfg []) {c : GenerationCall} {ans : AuthAnswers} {now : ℚ}
    {gen : Nat → Except Exc Nat} {access : ApiAccess}
    (hauth : (l.app.gateway.authorizeToken c.auth ans).1 = .ok access) :
    ((l.app.scheduler.free = true → l.app.Encodable c) →
      ({ l with authorized := l.authorized + 1 }.after cfg l.authorized c
        (l.app.startGenerationCore digest c ans now gen)).Sound cfg []) ∧
    (l.app.scheduler.free = true → ¬ l.app.Encodable c →
      ({ l with authorized := l.authorized + 1 }.after cfg l.authorized c
        (l.app.startGenerationCore digest c ans now gen)).Unaccounted) := by
  have hfree := Scheduler.admit_lease_iff l.app.scheduler (⟨access, c⟩ : Pending) now
  rcases hadm : l.app.scheduler.admitStart ⟨access, c⟩ now with ⟨adm, sched⟩
  rw [hadm] at hfree
  have htasks := Scheduler.admit_suspendedTasks hadm
  simp only [App.startGenerationCore, hauth, hadm]
  by_cases hsusp : adm = .suspended
  · rw [hsusp, if_pos rfl] at htasks
    have hnone : l.app.ends[l.app.ends.length]? = none := List.getElem?_eq_none (Nat.le_refl _)
    rw [hsusp] at hfree ⊢
    refine ⟨fun _ => ?_, fun hf => ?_⟩
    · simp only [after, App.afterAdmit, hnone]
      exact h.authorize.wait rfl (by simp [htasks]) rfl rfl
    · obtain ⟨w, hw⟩ := hfree.mpr hf
      cases hw
  · rw [if_neg hsusp] at htasks
    have hauthorized := h.authorize.congr { l.app with
      gateway := (l.app.gateway.authorizeToken c.auth ans).2
      scheduler := sched } rfl (congrArg List.length htasks) rfl rfl
    obtain ⟨hsound, hlost⟩ := afterAdmit_sound hauthorized digest (p := ⟨access, c⟩) gen hsusp
    refine ⟨fun henc => hsound fun w hw => henc (hfree.mp ⟨w, hw⟩), fun hf hno => ?_⟩
    obtain ⟨w, hw⟩ := hfree.mpr hf
    exact hlost ⟨w, hw, hno⟩

theorem resume_sound (h : l.Sound cfg []) {k : Nat} {now : ℚ} {gen : Nat → Except Exc Nat}
    {p : Pending} {adm : Admission} {sched : Scheduler Pending}
      (hr : l.app.scheduler.admitResume k now = some (p, adm, sched))
      (hk : l.waiting[k]? = some r) : ((∀ w, adm = .lease w → l.app.Encodable p.call) →
      ({ l with waiting := l.waiting.eraseIdx k }.after cfg r p.call
        (App.afterAdmit digest { l.app with scheduler := sched } p gen adm)).Sound cfg []) ∧
    ((∃ w, adm = .lease w ∧ ¬ l.app.Encodable p.call) →
      ({ l with waiting := l.waiting.eraseIdx k }.after cfg r p.call
        (App.afterAdmit digest { l.app with scheduler := sched } p gen adm)).Unaccounted) := by
  obtain ⟨-, htasks⟩ := Scheduler.admitResume_suspendedTasks hr
  have hne : adm ≠ .suspended := by
    obtain ⟨w, -, -, ⟨-, -, waited, ha, -⟩ | ⟨-, ⟨exc, ha⟩, -⟩ | ⟨-, ha, -⟩⟩ :=
      Scheduler.admitResume_cases hr <;> rw [ha] <;> simp
  have hresumed := h.unwait hk { l.app with scheduler := sched } rfl htasks rfl rfl
  exact afterAdmit_sound hresumed digest gen hne

/-- Every request is at one place once, and the metrics are the numbers of the accounts. -/
structure Exact (l : Ledger) : Prop where
  once : ∀ r < l.authorized, l.waiting.count r + l.running.count r + (l.accountsOf r).length = 1
  known : ∀ x ∈ l.accounts, x.1 < l.authorized
  tallied : ∀ tm, (RouteMetrics.replay tm l.app.routeMetrics).Tallied (l.accounts.map (·.2))

theorem Unaccounted.not_exact (h : l.Unaccounted) : ¬ l.Exact := by
  obtain ⟨r, hr, hzero⟩ := h
  intro hexact
  have := hexact.once r hr
  omega

theorem Sound.exact (h : l.Sound cfg []) : l.Exact where
  once := by
    intro r hr
    have hone : (List.range l.authorized).count r = 1 :=
      List.count_eq_one_of_mem List.nodup_range (List.mem_range.mpr hr)
    have hcount := h.each.count_eq r
    rw [hone, List.nil_append, List.count_append, List.count_append, count_accounts] at hcount
    omega
  known := by
    intro x hx
    have hmem : x.1 ∈ l.accounts.map (·.1) := List.mem_map_of_mem hx
    exact List.mem_range.mp (h.each.subset (by simp [hmem]))
  tallied := by
    intro tm
    refine RouteMetrics.Tallied.of_filter ?_
    rw [h.told]
    exact RouteMetrics.tallied tm l.app.routeMetrics

/-- A request is routed, and the metrics are not told of it. -/
theorem Sound.not_exact_of_untold (h : l.Sound cfg []) {app : App} {a : Account}
    (ha : a.isRouted = true)
      (htold : app.routeMetrics.map RouteEvent.account =
      l.app.routeMetrics.map RouteEvent.account) :
    ¬ Exact { l with app := app, accounts := l.accounts ++ [(r, a)] } := by
  intro hexact
  have htm : Nat → Timings := fun _ => {}
  have hnew := (hexact.tallied htm).requests
  have hevs := (RouteMetrics.tallied htm app.routeMetrics).requests
  rw [htold, ← h.told, List.countP_filter] at hevs
  have hmeasured : (l.accounts.map (·.2)).countP (fun a => a.isRouted && a.measured) =
      (l.accounts.map (·.2)).countP Account.isRouted :=
    List.countP_congr fun a _ => by cases a <;> simp [Account.isRouted, Account.measured]
  rw [hmeasured] at hevs
  rw [hevs] at hnew
  simp [List.countP_append, ha] at hnew

/-- A step gives every request its place, exactly when it satisfies `KeepsAccounts`. -/
theorem note_exact_iff (hb : l.app.Books 0) (h : l.Sound cfg []) {e : App.Ev} {app : App}
    (happ : App.step digest l.app e = some app) :
    (l.app.KeepsAccounts e → (l.note cfg app e).Sound cfg []) ∧
      (¬ l.app.KeepsAccounts e → ¬ (l.note cfg app e).Exact) := by
  cases e with
  | start c ans now gen =>
    cases happ
    cases hauth : (l.app.gateway.authorizeToken c.auth ans).1 with
    | error exc =>
      simp only [note, App.startGenerationCore, hauth]
      refine ⟨fun _ => h.congr _ rfl rfl rfl rfl, fun hno => absurd ?_ hno⟩
      simp [App.KeepsAccounts, App.placedAtOnce, hauth, Except.toOption]
    | ok access =>
      simp only [note, hauth, App.KeepsAccounts, App.placedAtOnce, Except.toOption,
        Option.isSome_some, Bool.true_and, Classical.not_imp]
      exact ⟨(start_sound h hauth).1,
        fun hno => ((start_sound h hauth).2 hno.1 hno.2).not_exact⟩
  | resume k now gen =>
    simp only [App.step] at happ
    cases hr : l.app.scheduler.admitResume k now with
    | none => rw [hr] at happ; cases happ
    | some res =>
      obtain ⟨p, adm, sched⟩ := res
      rw [hr] at happ
      cases happ
      obtain ⟨hp, -⟩ := Scheduler.admitResume_suspendedTasks hr
      have hlt : k < l.waiting.length := h.waiting ▸ (List.getElem?_eq_some_iff.mp hp).1
      have hk := List.getElem?_eq_getElem hlt
      obtain ⟨w, hw, rfl, hcase⟩ := Scheduler.admitResume_cases hr
      have hkeeps : l.app.KeepsAccounts (.resume k now gen) ↔
          ∀ waited, adm = .lease waited → l.app.Encodable w.task.task.call := by
        simp only [App.KeepsAccounts, hw, Option.some.injEq, forall_eq']
        rcases hcase with ⟨hi, -, waited, rfl, -⟩ | ⟨hi, ⟨exc, rfl⟩, -⟩ | ⟨hi, rfl, -⟩ <;> simp [hi]
      simp only [note, hk, hp, hkeeps]
      refine ⟨(resume_sound h hr hk).1, fun hno => ?_⟩
      push Not at hno
      exact ((resume_sound h hr hk).2 hno).not_exact
  | interrupt k i =>
    simp only [App.step, Option.map_eq_some_iff] at happ
    obtain ⟨sched, hi, rfl⟩ := happ
    refine ⟨fun _ => ?_, fun hno => absurd trivial hno⟩
    exact h.congr _ rfl (congrArg List.length (Scheduler.interrupt_suspendedTasks hi)) rfl rfl
  | finish i f =>
    simp only [App.step] at happ
    split at happ
    · rename_i v hv
      split at happ
      · cases happ
      · rename_i hopen
        cases happ
        have hopen : v.finished = false := by simpa using hopen
        obtain ⟨hfin, -⟩ := App.finishGeneration_finished
            (hb.held v (List.mem_of_getElem? hv) hopen) f
        have hlt : i < l.served.length := h.served ▸ (List.getElem?_eq_some_iff.mp hv).1
        have hi := List.getElem?_eq_getElem hlt
        have htold := App.finishGeneration_told h.names v f
        simp only [note, hi, hv, App.KeepsAccounts]
        refine ⟨fun hp => ?_, fun hno => ?_⟩
        · rw [if_pos hp] at htold
          refine h.finish hi hv hopen hfin.finished { (l.app.finishGeneration v f).2.2 with
            served := l.app.served.set i
              (l.app.finishGeneration v f).2.1 } ?_ hfin.suspended rfl rfl htold
          simp only [App.names]
          rw [hfin.registry]
          exact App.names_modifyInFlight ..
        · rw [if_neg hno, List.append_nil] at htold
          exact h.not_exact_of_untold rfl htold
    · cases happ
  | refresh i backend available =>
    cases happ
    exact ⟨fun _ => h.congr _ (App.names_refresh ..) rfl rfl rfl, fun hno => absurd trivial hno⟩
  | beginDrain =>
    cases happ
    exact ⟨fun _ => h.congr _ rfl rfl rfl rfl, fun hno => absurd trivial hno⟩

theorem run_ledger {s t : App} {ls : List App.Ev} (h : Run (App.step digest) s ls t) :
    ∀ l : Ledger, l.app = s → ∃ l', Run (step cfg digest) l ls l' ∧ l'.app = t := by
  induction h with
  | refl => exact fun l happ => ⟨l, .refl, happ⟩
  | @cons s s' t e ls hst _ ih =>
    rintro l rfl
    obtain ⟨l', hrun, happ⟩ := ih (l.note cfg s' e) (note_app l s' e)
    exact ⟨l', .cons (by rw [step, hst]; rfl) hrun, happ⟩

theorem step_sound (hb : l.app.Books 0) (h : l.Sound cfg []) {e : App.Ev}
    (hok : l.app.KeepsAccounts e) (hst : step cfg digest l e = some l') :
    l'.app.Books 0 ∧ l'.Sound cfg [] := by
  obtain ⟨app, happ, rfl⟩ := Option.map_eq_some_iff.mp hst
  rw [note_app]
  exact ⟨App.step_books hb happ, (note_exact_iff hb h happ).1 hok⟩

theorem keepsAccounts_of_exact (hb : l.app.Books 0) (h : l.Sound cfg []) {e : App.Ev}
    (hst : step cfg digest l e = some l') (hexact : l'.Exact) : l.app.KeepsAccounts e := by
  obtain ⟨app, happ, rfl⟩ := Option.map_eq_some_iff.mp hst
  exact by_contra fun hno => (note_exact_iff hb h happ).2 hno hexact

theorem length_accounts (as : List Account) :
    as.length = as.countP Account.isRouted + as.countP Account.isShed + as.count .featureRejected +
      as.count .cancelledInQueue := by
  induction as with
  | nil => rfl
  | cons a as ih =>
    cases a <;> simp [List.countP_cons, ih, Account.isRouted, Account.isShed] <;> omega

theorem running_eq_nil (h : ∀ v ∈ l.app.served, v.finished = true) : l.running = [] := by
  rw [running, List.map_eq_nil_iff, List.filter_eq_nil_iff]
  intro x hx
  obtain ⟨v, hv, hflag⟩ := List.mem_map.mp (List.of_mem_zip hx).2
  simp [← hflag, h v hv]

/-- Once no call is suspended and every `Served` is finished, each request has one account, and the
requests are the routed, the shed, the rejected for a feature and the cancelled. -/
theorem Sound.settled (h : l.Sound cfg []) (hqueue : l.app.scheduler.suspendedTasks = [])
    (hserved : ∀ v ∈ l.app.served, v.finished = true) (tm : Nat → Timings) :
    (∀ r < l.authorized, ∃ a, l.accountsOf r = [a]) ∧
      l.authorized = (RouteMetrics.replay tm l.app.routeMetrics).snapshot.totals.requests +
        (RouteMetrics.replay tm l.app.routeMetrics).snapshot.totals.sheds +
        (l.accounts.map (·.2)).count .featureRejected +
        (l.accounts.map (·.2)).count .cancelledInQueue := by
  have hwaiting : l.waiting = [] := by
    rw [← List.length_eq_zero_iff, h.waiting, hqueue]
    rfl
  have hrunning := running_eq_nil hserved
  constructor
  · intro r hr
    have hone := h.exact.once r hr
    rw [hwaiting, hrunning] at hone
    simp only [List.count_nil, Nat.zero_add] at hone
    exact List.length_eq_one_iff.mp hone
  · have htallied := h.exact.tallied tm
    have hlength := h.each.length_eq
    rw [hwaiting, hrunning] at hlength
    simp only [List.nil_append, List.length_map, List.length_range] at hlength
    have hsplit := length_accounts (l.accounts.map (·.2))
    rw [List.length_map, hlength] at hsplit
    rw [hsplit, ← htallied.requests, ← htallied.totalSheds]
    rfl

/-- **Every authorized request ends in one account, and the metrics are the numbers of the accounts,
exactly along the runs that keep them.** In every run, among any other requests and with any
timings: in every state a request that passed authorization waits in the queue, has a `Served` that
is not finished, or has one account, and stands nowhere twice, and the sheds of each model, the
requests, errors and cancellations of each row, and the totals are the numbers of the accounts, with
the reasons and the policies of a row adding up to its requests, if and only if every prefix key had
the bytes that its placement asked for and every cost could be computed. Then, once no call is
suspended and every `Served` is finished, each request has one account, and the requests are the
routed, the shed, the rejected for a feature and the cancelled. -/
theorem accounts_exact_iff {t : App} {ls : List App.Ev}
    (h : Run (App.step digest) (.init cfg) ls t) :
    ∃ l, Run (step cfg digest) (init cfg) ls l ∧ l.app = t ∧
      (Always (step cfg digest) Exact (init cfg) ls ↔
        Guarded (step cfg digest) (fun l e => l.app.KeepsAccounts e) (init cfg) ls) ∧
      (Guarded (step cfg digest) (fun l e => l.app.KeepsAccounts e) (init cfg) ls →
        t.scheduler.suspendedTasks = [] → (∀ v ∈ t.served, v.finished = true) → ∀ tm,
          (∀ r < l.authorized, ∃ a, l.accountsOf r = [a]) ∧
          l.authorized = (RouteMetrics.replay tm t.routeMetrics).snapshot.totals.requests +
            (RouteMetrics.replay tm t.routeMetrics).snapshot.totals.sheds +
            (l.accounts.map (·.2)).count .featureRejected +
            (l.accounts.map (·.2)).count .cancelledInQueue) := by
  obtain ⟨l, hrun, rfl⟩ : ∃ l, Run (step cfg digest) (init cfg) ls l ∧ l.app = t :=
    run_ledger h (init cfg) rfl
  have hstart : (init cfg).app.Books 0 ∧ (init cfg).Sound cfg [] :=
    ⟨App.books_init cfg, sound_init cfg⟩
  refine ⟨l, hrun, rfl, ?_, fun hok hqueue hserved tm => ?_⟩
  · refine hrun.always_iff_guarded_of_strengthening (I := fun l => l.app.Books 0 ∧
      l.Sound cfg []) ?_ ?_ ?_ hstart
    · exact fun _ _ _ hs hok hst => step_sound hs.1 hs.2 hok hst
    · exact fun _ hs => hs.2.exact
    · exact fun _ _ _ hs hst hexact => keepsAccounts_of_exact hs.1 hs.2 hst hexact
  · have hsound : l.app.Books 0 ∧ l.Sound cfg [] :=
      hrun.invariant_of_guarded (P := fun l => l.app.Books 0 ∧ l.Sound cfg [])
        (fun _ _ _ hs hok hst => step_sound hs.1 hs.2 hok hst) hok hstart
    exact hsound.2.settled hqueue hserved tm

/-- One request is served and cancelled by its client, one is cancelled in the queue, and the
backend refuses the third. -/
def mixed : List App.Ev :=
  [App.request "a" fun _ => .ok 0, App.request "b" fun _ => .ok 1, .interrupt 0 .cancel,
    .resume 0 1 fun _ => .ok 1, .finish 0 ⟨none, 0, none, none, 0⟩,
    App.request "c" fun _ => .error (.backendBusy "a generation is already running")]

theorem accounts_exact_iff_mixed :
    ∃ t, Run (App.step List.length) (.init App.oneSlot) mixed t ∧
      ∃ l : Ledger, l.app = t ∧ l.authorized = 3 ∧ (∀ r < 3, ∃ a, l.accountsOf r = [a]) ∧
        l.accounts = [(1, .cancelledInQueue), (0, .routed "m" "local" .cancelled),
          (2, .routed "m" "local" .error)] ∧
        (RouteMetrics.replay (fun _ => {}) t.routeMetrics).totals = ⟨2, 1, 1, 0, 0⟩ := by
  obtain ⟨t, hrun, ht⟩ : ∃ t, Run (App.step List.length) (.init App.oneSlot) mixed t ∧
      (t.scheduler.suspendedTasks.length, t.served.map (·.finished),
        (RouteMetrics.replay (fun _ => {}) t.routeMetrics).totals) = (0, [true], ⟨2, 1, 1, 0, 0⟩) :=
    run_of_exec_map (by decide +kernel)
  obtain ⟨l', hrun', hl'⟩ : ∃ l, Run (step App.oneSlot List.length) (init App.oneSlot) mixed l ∧
      (l.authorized, l.accounts) = (3, [(1, .cancelledInQueue), (0, .routed "m" "local" .cancelled),
        (2, .routed "m" "local" .error)]) := run_of_exec_map (by decide +kernel)
  obtain ⟨hauthorized, haccounts⟩ := Prod.mk.inj hl'
  obtain ⟨hqueue, hrest⟩ := Prod.mk.inj ht
  obtain ⟨hserved, htotals⟩ := Prod.mk.inj hrest
  obtain ⟨l, hl, rfl, -, hall⟩ := accounts_exact_iff hrun
  obtain rfl := hl.unique hrun'
  obtain ⟨hone, -⟩ := hall (by decide +kernel) (List.length_eq_zero_iff.mp hqueue) (fun v hv => by
    have hmem : v.finished ∈ l.app.served.map (·.finished) := List.mem_map_of_mem hv
    rw [hserved] at hmem
    exact List.mem_singleton.mp hmem) fun _ => {}
  exact ⟨l.app, hrun, l, rfl, hauthorized, fun r hr => hone r (hauthorized ▸ hr),
    haccounts, htotals⟩

/-- A backend with a prefix cache, and prefix affinity on. -/
def cachingSlot : AppConfig :=
  { App.oneSlot with
    entries := [{ name := "local", kind := "remote_vllm", backend := some ⟨.ready,
      ⟨"m", false⟩⟩, prefixCache := true }],
    prefixAffinityChars := 64,
    idle := by simp }

/-- The prompt is "\ud800". -/
def surrogatePrompt : List App.Ev :=
  [.start
    { token := some "a"
      endpoint := "/v1/chat/completions"
      modelId := "m"
      routeModel := "m"
      promptText := [.surrogate 0]
      maxTokens := 1
      requestId := "a" }
    { verified := .ok (some "a")
      now := 0 } 0 fun _ => .ok 0]

/-- The request is authorized, its call has raised, and it is in no account. -/
theorem surrogate_unaccounted :
    ∃ l, Run (step cachingSlot List.length) (init cachingSlot) surrogatePrompt l ∧
      l.authorized = 1 ∧ l.app.ends = [.acquireRaised (.other "surrogates not allowed")] ∧
      l.waiting = [] ∧ l.running = [] ∧ l.accountsOf 0 = [] := by
  obtain ⟨l, hrun, hl⟩ : ∃ l,
      Run (step cachingSlot List.length) (init cachingSlot) surrogatePrompt l ∧
      (l.authorized, l.app.ends, l.waiting, l.running, l.accountsOf 0) =
        (1, [.acquireRaised (.other "surrogates not allowed")], [], [], []) :=
    run_of_exec_map (by decide +kernel)
  simp only [Prod.mk.injEq] at hl
  exact ⟨l, hrun, hl.1, hl.2.1, hl.2.2.1, hl.2.2.2.1, hl.2.2.2.2⟩

end Ledger
end InferenceEngine
