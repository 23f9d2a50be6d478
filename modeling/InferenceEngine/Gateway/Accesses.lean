import InferenceEngine.Gateway.Authorize
import InferenceEngine.Lib.Count
import InferenceEngine.Lib.Run

/-!
# Gateway.Accesses

The gateway and every access it has returned (`GatewayDesk`), under any interleaving of
`authorize_token`, `finalize` and `abort`, each of which runs on the event loop without a
suspension. An access keeps the pre-check estimate of its request beside it, for statements only,
and `clock` is the time of the last call.

* `Counts`: the slots in flight of a key are its accesses that are neither finalized nor aborted.
* `slots_iff`: this holds along a run exactly when no quota pre-check raised
  (`Gateway.quotaRaises`).
-/

namespace InferenceEngine

open Lts

/-- An access the gateway has returned, with the estimate of its request. -/
structure Issued where
  access : ApiAccess
  estimate : ℚ
  deriving DecidableEq, Repr

structure GatewayDesk where
  gateway : Gateway
  issued : List Issued
  clock : ℚ

/-- The pre-check estimate of a request. -/
def Gateway.estimate (g : Gateway) (req : AuthRequest) : ℚ :=
  g.compute (estimatePromptTokens req.promptText) req.maxTokens

namespace GatewayDesk

inductive Ev where
  | authorize (req : AuthRequest) (ans : AuthAnswers)
  /-- `finalize` of the access returned as number `i`, for the first time or again -/
  | finalize (i : Nat) (u : UsageReport) (recordExc : Option Exc)
  | abort (i : Nat)

def init (settings : GatewaySettings) (now : ℚ) : GatewayDesk where
  gateway := .init settings
  issued := []
  clock := now

def step (s : GatewayDesk) : Ev → Option GatewayDesk
  | .authorize req ans =>
    match s.gateway.authorizeToken req ans with
    | (.ok a, g) => some ⟨g, s.issued ++ [⟨a, s.gateway.estimate req⟩], ans.now⟩
    | (.error _, g) => some ⟨g, s.issued, ans.now⟩
  | .finalize i u recordExc =>
    match s.issued[i]? with
    | none => none
    | some v =>
      let (_, a, g) := v.access.finalize s.gateway u recordExc
      some ⟨g, s.issued.set i { v with access := a }, u.ts⟩
  | .abort i =>
    match s.issued[i]? with
    | none => none
    | some v =>
      let (a, g) := v.access.abort s.gateway
      some { s with
        gateway := g
        issued := s.issued.set i { v with access := a } }

/-- Neither finalized nor aborted, and of key `k`. -/
def Issued.openFor (k : String) (v : Issued) : Bool := !v.access.finalized && v.access.keyId == k

/-- The slots in flight of each key are its open accesses, within the bound. The local key has no
slots. -/
structure Counts (s : GatewayDesk) : Prop where
  inflight : ∀ k, k ≠ localKeyId → s.gateway.limiter.inflight k = s.issued.countP (Issued.openFor k)
  bound : ∀ k, k ≠ localKeyId → 0 < s.gateway.settings.maxConcurrentPerKey →
    (s.gateway.limiter.inflight k : Int) ≤ s.gateway.settings.maxConcurrentPerKey

/-- What holds in every run: the limiter has the configured bound and keeps it, and an open access
holds a slot unless it is of the local key. -/
structure Sound (s : GatewayDesk) : Prop where
  limiter : s.gateway.limiter.maxConcurrent = s.gateway.settings.maxConcurrentPerKey
  bound : ∀ k, 0 < s.gateway.settings.maxConcurrentPerKey →
    (s.gateway.limiter.inflight k : Int) ≤ s.gateway.settings.maxConcurrentPerKey
  held : ∀ v ∈ s.issued, v.access.finalized = false →
    v.access.slotHeld = (v.access.keyId != localKeyId)

/-- The quota pre-check of a call does not raise. -/
def Answers (s : GatewayDesk) : Ev → Prop
  | .authorize req ans => s.gateway.quotaRaises req ans = false
  | _ => True

variable {s s' t : GatewayDesk}

theorem step_cases {ev : Ev} (h : s.step ev = some s') :
    (∃ req ans, ev = .authorize req ans ∧ s'.gateway = (s.gateway.authorizeToken req ans).2 ∧
        s'.clock = ans.now ∧
        ((∃ a, (s.gateway.authorizeToken req ans).1 = .ok a ∧
            s'.issued = s.issued ++ [⟨a, s.gateway.estimate req⟩]) ∨
          (∃ e, (s.gateway.authorizeToken req ans).1 = .error e ∧ s'.issued = s.issued))) ∨
    (∃ i v u exc, ev = .finalize i u exc ∧ s.issued[i]? = some v ∧ s'.clock = u.ts ∧
        s'.gateway = (v.access.finalize s.gateway u exc).2.2 ∧
        s'.issued = s.issued.set i { v with access := (v.access.finalize s.gateway u exc).2.1 }) ∨
    (∃ i v, ev = .abort i ∧ s.issued[i]? = some v ∧ s'.clock = s.clock ∧
        s'.gateway = (v.access.abort s.gateway).2 ∧
        s'.issued = s.issued.set i { v with access := (v.access.abort s.gateway).1 }) := by
  cases ev with
  | authorize req ans =>
    refine .inl ⟨req, ans, rfl, ?_⟩
    rcases hres : s.gateway.authorizeToken req ans with ⟨a | e, g⟩
    · simp only [step, hres, Option.some.injEq] at h
      subst h
      exact ⟨rfl, rfl, .inr ⟨_, rfl, rfl⟩⟩
    · simp only [step, hres, Option.some.injEq] at h
      subst h
      exact ⟨rfl, rfl, .inl ⟨_, rfl, rfl⟩⟩
  | finalize i u exc =>
    simp only [step] at h
    cases hi : s.issued[i]? with
    | none => simp [hi] at h
    | some v =>
      simp only [hi, Option.some.injEq] at h
      subst h
      exact .inr (.inl ⟨i, v, u, exc, rfl, hi, rfl, rfl, rfl⟩)
  | abort i =>
    simp only [step] at h
    cases hi : s.issued[i]? with
    | none => simp [hi] at h
    | some v =>
      simp only [hi, Option.some.injEq] at h
      subst h
      exact .inr (.inr ⟨i, v, rfl, hi, rfl, rfl, rfl⟩)

structure Closes (a : ApiAccess) (g : Gateway) (a' : ApiAccess) (g' : Gateway) : Prop where
  settings : g'.settings = g.settings
  maxConcurrent : g'.limiter.maxConcurrent = g.limiter.maxConcurrent
  keyId : a'.keyId = a.keyId
  finalized : a'.finalized = true
  inflight : ∀ k, g'.limiter.inflight k =
    g.limiter.inflight k - if a.finalized then 0 else a.slots k

theorem finalize_closes (a : ApiAccess) (g : Gateway) (u : UsageReport) (exc : Option Exc) :
    Closes a g (a.finalize g u exc).2.1 (a.finalize g u exc).2.2 := by
  cases hf : a.finalized with
  | true =>
    have heq : a.finalize g u exc = (none, a, g) := by simp [ApiAccess.finalize, hf]
    rw [heq]
    exact ⟨rfl, rfl, rfl, hf, by simp [hf]⟩
  | false =>
    refine ⟨?_, ?_, ?_, ?_, fun k => ?_⟩
    · simp [ApiAccess.finalize, hf]
    · simp only [ApiAccess.finalize, hf, Bool.false_eq_true, if_false]
      split <;> rfl
    · simp [ApiAccess.finalize, hf]
    · simp [ApiAccess.finalize, hf]
    · simpa [hf] using finalize_inflight hf u exc k

theorem abort_closes (a : ApiAccess) (g : Gateway) :
    Closes a g (a.abort g).1 (a.abort g).2 := by
  cases hf : a.finalized with
  | true =>
    have heq : a.abort g = (a, g) := by simp [ApiAccess.abort, hf]
    rw [heq]
    exact ⟨rfl, rfl, rfl, hf, by simp [hf]⟩
  | false =>
    refine ⟨?_, ?_, ?_, ?_, fun k => ?_⟩
    · simp only [ApiAccess.abort, hf, Bool.false_eq_true, if_false]
      split <;> rfl
    · simp only [ApiAccess.abort, hf, Bool.false_eq_true, if_false]
      split <;> rfl
    · simp [ApiAccess.abort, hf]
    · simp [ApiAccess.abort, hf]
    · simpa [hf] using abort_inflight hf k

theorem step_closes {ev : Ev} (h : s.step ev = some s') :
    (∃ req ans, ev = .authorize req ans ∧ s'.gateway = (s.gateway.authorizeToken req ans).2 ∧
        ((∃ a, (s.gateway.authorizeToken req ans).1 = .ok a ∧
            s'.issued = s.issued ++ [⟨a, s.gateway.estimate req⟩]) ∨
          (∃ e, (s.gateway.authorizeToken req ans).1 = .error e ∧ s'.issued = s.issued))) ∨
    (∃ i v a, s.Answers ev ∧ s.issued[i]? = some v ∧ Closes v.access s.gateway a s'.gateway ∧
        s'.issued = s.issued.set i { v with access := a }) := by
  rcases step_cases h with ⟨req, ans, hev, hg, -, hres⟩ | ⟨i, v, u, exc, rfl, hi, -, hg, his⟩ |
    ⟨i, v, rfl, hi, -, hg, his⟩
  · exact .inl ⟨req, ans, hev, hg, hres⟩
  · refine .inr ⟨i, v, _, trivial, hi, ?_, his⟩
    rw [hg]
    exact finalize_closes ..
  · refine .inr ⟨i, v, _, trivial, hi, ?_, his⟩
    rw [hg]
    exact abort_closes ..

theorem init_sound (settings : GatewaySettings) (now : ℚ) : (init settings now).Sound := by
  refine ⟨rfl, fun k hpos => ?_, by simp [init]⟩
  simp only [init, Gateway.init, Limiter.init] at hpos ⊢
  omega

/-- `authorize_token` changes the limiter only, and takes a slot only within the bound. -/
theorem authorizeToken_frame (g : Gateway) (req : AuthRequest) (ans : AuthAnswers) :
    (g.authorizeToken req ans).2.settings = g.settings ∧
      (g.authorizeToken req ans).2.usage = g.usage ∧
      (g.authorizeToken req ans).2.limiter.maxConcurrent = g.limiter.maxConcurrent ∧
      ∀ k, (g.authorizeToken req ans).2.limiter.inflight k ≤ g.limiter.inflight k ∨
        (0 < g.limiter.maxConcurrent →
          ((g.authorizeToken req ans).2.limiter.inflight k : Int) ≤ g.limiter.maxConcurrent) := by
  cases hreach : g.reachesQuota req ans with
  | false =>
    obtain ⟨-, hset, husage, hmax, hin⟩ := Gateway.authorizeToken_stops hreach
    exact ⟨hset, husage, hmax, fun k => .inl (by rw [hin])⟩
  | true =>
    obtain ⟨keyId, limits, l, -, -, -, hmax, hslot, hle, heq⟩ :=
      Gateway.authorizeToken_reaches hreach
    have hheld (k : String) : l.inflight k ≤ g.limiter.inflight k ∨
        (0 < g.limiter.maxConcurrent → (l.inflight k : Int) ≤ g.limiter.maxConcurrent) := by
      by_cases hk : keyId = k
      · subst hk
        exact .inr hle
      · left
        simp [hslot, hk]
    rw [heq]
    rcases Gateway.checkQuota_cases { g with limiter := l } _ limits req ans with
      ⟨headers, -, hg, -⟩ | ⟨e, -, ⟨-, hg⟩ | ⟨-, hg⟩⟩
    · rw [hg]
      exact ⟨rfl, rfl, hmax, hheld⟩
    · rw [hg]
      refine ⟨rfl, rfl, hmax, fun k => ?_⟩
      rw [abort_inflight rfl]
      rcases hheld k with h | h
      · left
        simp only
        omega
      · right
        intro hpos
        have := h hpos
        simp only
        omega
    · rw [hg]
      exact ⟨rfl, rfl, hmax, hheld⟩

theorem step_sound {ev : Ev} (hs : s.Sound) (h : s.step ev = some s') : s'.Sound := by
  rcases step_closes h with ⟨req, ans, -, hg, hres⟩ | ⟨i, v, a, -, hi, hc, his⟩
  · obtain ⟨hset, -, hmax, hle⟩ := authorizeToken_frame s.gateway req ans
    refine ⟨?_, fun k hpos => ?_, ?_⟩
    · rw [hg, hmax, hset]
      exact hs.limiter
    · rw [hg, hset] at hpos
      have hold := hs.bound k hpos
      have hnew := hle k
      rw [hs.limiter] at hnew
      rw [hg, hset]
      rcases hnew with hnew | hnew
      · omega
      · exact hnew hpos
    · rcases hres with ⟨a, ha, his⟩ | ⟨e, -, his⟩
      · intro v hv hf
        rw [his, List.mem_append, List.mem_singleton] at hv
        rcases hv with hv | rfl
        · exact hs.held v hv hf
        · rcases Gateway.authorizeToken_cases s.gateway req ans with ⟨a', ha', -, hheld, -⟩ |
            ⟨e, he, -⟩ | ⟨e, he, -⟩
          · rw [ha] at ha'
            cases ha'
            exact hheld
          · rw [ha] at he
            cases he
          · rw [ha] at he
            cases he
      · rw [his]
        exact hs.held
  · refine ⟨?_, fun k hpos => ?_, ?_⟩
    · rw [hc.maxConcurrent, hc.settings]
      exact hs.limiter
    · rw [hc.settings] at hpos ⊢
      have := hs.bound k hpos
      rw [hc.inflight]
      omega
    · intro w hw hf
      rw [his] at hw
      rcases List.mem_or_eq_of_mem_set hw with hw | rfl
      · exact hs.held w hw hf
      · rw [hc.finalized] at hf
        cases hf

/-- The slot that closing an access gives back is that of an open access. -/
theorem slots_openFor {v : Issued} (hs : s.Sound) (hv : v ∈ s.issued) {k : String}
    (hk : k ≠ localKeyId) :
    (if v.access.finalized then 0 else v.access.slots k) =
      if Issued.openFor k v then 1 else 0 := by
  have hheld := hs.held v hv
  cases hf : v.access.finalized with
  | true => simp [Issued.openFor, hf]
  | false =>
    simp only [ApiAccess.slots, ApiAccess.holds, hheld hf, Issued.openFor, hf, Bool.not_false,
      Bool.true_and, Bool.false_eq_true, if_false]
    by_cases hkey : v.access.keyId = k
    · simp [hkey, hk]
    · simp [hkey]

theorem countP_close {i : Nat} {v : Issued} {a : ApiAccess} (hi : s.issued[i]? = some v)
    (ha : a.finalized = true) (k : String) :
    (s.issued.set i { v with access := a }).countP (Issued.openFor k) +
      (if Issued.openFor k v then 1 else 0) = s.issued.countP (Issued.openFor k) := by
  have hcount := Count.countP_set_add (p := Issued.openFor k) (b := { v with access := a }) hi
  have hclosed : Issued.openFor k { v with access := a } = false := by simp [Issued.openFor, ha]
  rw [hclosed] at hcount
  simpa using hcount

theorem counts_close {i : Nat} {v : Issued} {a : ApiAccess} (hs : s.Sound) (hc : s.Counts)
    (hi : s.issued[i]? = some v) (hcl : Closes v.access s.gateway a s'.gateway)
    (his : s'.issued = s.issued.set i { v with access := a }) (k : String)
    (hk : k ≠ localKeyId) :
    s'.gateway.limiter.inflight k = s'.issued.countP (Issued.openFor k) := by
  have hcount := countP_close hi hcl.finalized k
  rw [his, hcl.inflight, slots_openFor hs (List.mem_of_getElem? hi) hk, hc.inflight k hk]
  omega

/-- A step keeps the counts exactly when no quota pre-check raised with a slot held. -/
theorem step_counts_iff {ev : Ev} (hs : s.Sound) (hc : s.Counts) (h : s.step ev = some s') :
    s'.Counts ↔ s.Answers ev := by
  have hs' := step_sound hs h
  have hiff : s'.Counts ↔ ∀ k, k ≠ localKeyId →
      s'.gateway.limiter.inflight k = s'.issued.countP (Issued.openFor k) :=
    ⟨fun hc' => hc'.inflight, fun hin => ⟨hin, fun k _ hpos => hs'.bound k hpos⟩⟩
  rw [hiff]
  rcases step_closes h with ⟨req, ans, rfl, hg, hres⟩ | ⟨i, v, a, hans, hi, hcl, his⟩
  · simp only [Answers]
    rcases Gateway.authorizeToken_cases s.gateway req ans with ⟨a, ha, hf, hheld, hno, hin⟩ |
      ⟨e, he, hno, hin⟩ | ⟨e, he, hraise, key, hkey, hin⟩
    · rcases hres with ⟨a', ha', his⟩ | ⟨e, he, -⟩
      · rw [ha] at ha'
        cases ha'
        refine iff_of_true (fun k hk => ?_) hno
        rw [hg, hin, his, List.countP_append, hc.inflight k hk, List.countP_singleton]
        simp only [ApiAccess.slots, ApiAccess.holds, hheld, Issued.openFor, hf, Bool.not_false,
          Bool.true_and]
        by_cases hkey : a.keyId = k
        · simp [hkey, hk]
        · simp [hkey]
      · rw [ha] at he
        cases he
    · rcases hres with ⟨a', ha', -⟩ | ⟨e', -, his⟩
      · rw [he] at ha'
        cases ha'
      · refine iff_of_true (fun k hk => ?_) hno
        rw [hg, hin, his]
        exact hc.inflight k hk
    · rcases hres with ⟨a', ha', -⟩ | ⟨e', -, his⟩
      · rw [he] at ha'
        cases ha'
      · refine iff_of_false (fun hall => ?_) (by simp [hraise])
        have hone := hall key hkey
        rw [hg, hin, his, hc.inflight key hkey] at hone
        simp at hone
  · exact iff_of_true (counts_close hs hc hi hcl his) hans

theorem init_counts (settings : GatewaySettings) (now : ℚ) : (init settings now).Counts :=
  ⟨fun _ _ => rfl, fun k _ hpos => (init_sound settings now).bound k hpos⟩

/-- **No slot is lost, exactly when no quota pre-check raises.** A call of `authorize_token` returns
an access or raises, and when it raises the slots of every key are what they were if and only if it
did not reach the quota pre-check with its slot to find there a usage store that raises or an
infinite quota; and along a run of `authorize_token`, `finalize` and `abort` calls the slots in
flight of every key are its open accesses, at most `max_concurrent_per_key`, if and only if there
was no such raise. -/
theorem slots_iff {settings : GatewaySettings} {now : ℚ} {ls : List Ev}
    (h : Run step (init settings now) ls t) :
    (∀ (g : Gateway) (req : AuthRequest) (ans : AuthAnswers),
      (∃ a, (g.authorizeToken req ans).1 = .ok a) ∨
        (∃ e, (g.authorizeToken req ans).1 = .error e) ∧
          ((∀ k, (g.authorizeToken req ans).2.limiter.inflight k = g.limiter.inflight k) ↔
            g.quotaRaises req ans = false)) ∧
      (Always step Counts (init settings now) ls ↔
      Guarded step Answers (init settings now) ls) := by
  constructor
  · intro g req ans
    rcases Gateway.authorizeToken_cases g req ans with ⟨a, ha, -⟩ | ⟨e, he, hno, hin⟩ |
      ⟨e, he, hraise, key, -, hin⟩
    · exact .inl ⟨a, ha⟩
    · exact .inr ⟨⟨e, he⟩, iff_of_true hin hno⟩
    · refine .inr ⟨⟨e, he⟩, iff_of_false (fun hall => ?_) (by simp [hraise])⟩
      have hone := hall key
      rw [hin] at hone
      simp at hone
  · exact h.always_iff_guarded_of_invariant (fun _ _ _ hs hst => step_sound hs hst)
      (fun _ _ _ hs hc hst => step_counts_iff hs hc hst) (init_sound settings now)
      (init_counts settings now)

/-- One request at a time for each key. -/
def oneAtATime : GatewaySettings where
  requireAuth := true
  quota5hCu := 1000
  quotaWeeklyCu := 0
  rateLimitPerMin := 0
  maxConcurrentPerKey := 1

/-- A request with key `key`; `exc` is what the usage store raises in the pre-check. -/
def requestOf (key : String) (exc : Option Exc) : Ev :=
  .authorize
    { token := some key, promptText := .ofString "hello", maxTokens := 16, endpoint := "/v1", model := none }
    { verified := .ok (some key), usage5hExc := exc, now := 0 }

/-- A request in flight, a second one that is refused, and an access closed twice. -/
def refusedSecond : List Ev :=
  [requestOf "a" none, requestOf "a" none, .finalize 0 ⟨1, "r", none, 2, 3, 200⟩ none, .abort 0]

def refusedSecondEnd : GatewayDesk :=
  (exec step (init oneAtATime 0) refusedSecond).get (by decide +kernel)

instance (s : GatewayDesk) : (ev : Ev) → Decidable (s.Answers ev)
  | .authorize req ans => inferInstanceAs (Decidable (s.gateway.quotaRaises req ans = false))
  | .finalize .. => .isTrue trivial
  | .abort _ => .isTrue trivial

theorem slots_iff_refusedSecond :
    Run step (init oneAtATime 0) refusedSecond refusedSecondEnd ∧
      refusedSecondEnd.issued.length = 1 ∧
      Always step Counts (init oneAtATime 0) refusedSecond := by
  have hrun : Run step (init oneAtATime 0) refusedSecond refusedSecondEnd :=
    run_of_exec (by simp [refusedSecondEnd])
  exact ⟨hrun, by decide +kernel, (slots_iff hrun).2.mpr (by decide +kernel)⟩

/-- The usage store is locked in the pre-check of the only request so far. -/
def lockedPreCheck : List Ev := [requestOf "a" (some (.other "database is locked"))]

def lockedPreCheckEnd : GatewayDesk :=
  (exec step (init oneAtATime 0) lockedPreCheck).get (by decide +kernel)

/-- The call has raised and no access exists, and yet the key has a slot in flight, the only one it
may have: its next request is refused. -/
theorem lockedPreCheck_leaks :
    Run step (init oneAtATime 0) lockedPreCheck lockedPreCheckEnd ∧
      lockedPreCheckEnd.issued.length = 0 ∧
      lockedPreCheckEnd.gateway.limiter.inflight "a" = 1 ∧
      ∃ s, lockedPreCheckEnd.step (requestOf "a" none) = some s ∧ s.issued.length = 0 :=
  ⟨run_of_exec (by simp [lockedPreCheckEnd]), by decide +kernel, by decide +kernel,
    (lockedPreCheckEnd.step (requestOf "a" none)).get (by decide +kernel), by simp,
    by decide +kernel⟩

end GatewayDesk
end InferenceEngine
