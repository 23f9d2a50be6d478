import InferenceEngine.Gateway.Accesses
import Mathlib.Algebra.Order.BigOperators.Group.List
import Mathlib.Tactic.Linarith

/-!
# Gateway.Quota

How far a key can get past its compute quota. The pre-check of a request reads the usage recorded so
far and not the estimates of the requests in flight, so up to `max_concurrent_per_key` requests may
pass it together. A negative record (an upstream says what it likes) makes room in the window that
later requests fill, and leaves the rolling window before they do.

The argument is one invariant: the usage of the current window and the estimates in flight add up to
no more than the quota and the estimates of all but one of the requests in flight. A pre-check
restores it, a record moves an amount from the second sum to the first, and time moves the start of
the window forward, never back, so a week that ends takes usage off and the estimates in flight
carry over.

* `quota_bounded`: for either window and every interleaving in which the key records nothing
  negative.
* `negativeRecord_exceeds`: with one request at a time, a negative record lets the key exceed its
  quota.
-/

namespace InferenceEngine

open Lts

inductive Window where
  | weekly
  | rolling5h
  deriving DecidableEq, Repr

namespace Window

def start : Window → ℚ → ℚ
  | .weekly, now => weekStart now
  | .rolling5h, now => now - 5 * 60 * 60

def quota (limits : KeyLimits) : Window → Quota
  | .weekly => limits.quotaWeeklyCu
  | .rolling5h => limits.quota5hCu

/-- The compute units of a key summed over the window current at `now`. -/
def used (w : Window) (usage : List UsageEvent) (keyId : String) (now : ℚ) : ℚ :=
  sumCu usage keyId (w.start now)

theorem weekStart_mono {a b : ℚ} (h : a ≤ b) : weekStart a ≤ weekStart b := by
  have hround : halfEven (a * 1000000) ≤ halfEven (b * 1000000) := halfEven_mono (by linarith)
  have hday (m n : Int) (hmn : m ≤ n) : m / 86400000000 - (m / 86400000000 + 3) % 7 ≤
      n / 86400000000 - (n / 86400000000 + 3) % 7 := by omega
  unfold weekStart
  exact mul_le_mul_of_nonneg_right (by exact_mod_cast hday _ _ hround) (by norm_num)

theorem start_mono (w : Window) {a b : ℚ} (h : a ≤ b) : w.start a ≤ w.start b := by
  cases w with
  | weekly => exact weekStart_mono h
  | rolling5h =>
    simp only [start]
    linarith

end Window

theorem sumCu_cons (u : UsageEvent) (usage : List UsageEvent) (keyId : String) (since : ℚ) :
    sumCu (u :: usage) keyId since =
      (if u.keyId = keyId ∧ since ≤ u.ts then u.cu else 0) + sumCu usage keyId since := by
  unfold sumCu
  by_cases h : u.keyId = keyId ∧ since ≤ u.ts
  · rw [if_pos h, List.filter_cons_of_pos (by simpa using h), List.map_cons, List.sum_cons]
  · rw [if_neg h, List.filter_cons_of_neg (by simpa using h), zero_add]

theorem sumCu_append (usage : List UsageEvent) (u : UsageEvent) (keyId : String) (since : ℚ) :
    sumCu (usage ++ [u]) keyId since =
      sumCu usage keyId since + if u.keyId = keyId ∧ since ≤ u.ts then u.cu else 0 := by
  induction usage with
  | nil =>
    rw [List.nil_append, sumCu_cons]
    simp [sumCu]
  | cons v usage ih =>
    rw [List.cons_append, sumCu_cons, sumCu_cons, ih]
    ring

theorem sumCu_anti {usage : List UsageEvent} {keyId : String}
    (hrows : ∀ u ∈ usage, u.keyId = keyId → 0 ≤ u.cu) {a b : ℚ} (h : a ≤ b) :
    sumCu usage keyId b ≤ sumCu usage keyId a := by
  induction usage with
  | nil => simp [sumCu]
  | cons u usage ih =>
    have hrest := ih fun v hv => hrows v (List.mem_cons_of_mem _ hv)
    have hu := hrows u (List.mem_cons_self ..)
    rw [sumCu_cons, sumCu_cons]
    by_cases hb : u.keyId = keyId ∧ b ≤ u.ts
    · rw [if_pos hb, if_pos ⟨hb.1, h.trans hb.2⟩]
      linarith
    · rw [if_neg hb]
      split
      · rename_i ha
        have := hu ha.1
        linarith
      · linarith

theorem Window.used_anti (w : Window) {usage : List UsageEvent} {keyId : String}
    (hrows : ∀ u ∈ usage, u.keyId = keyId → 0 ≤ u.cu) {a b : ℚ} (h : a ≤ b) :
    w.used usage keyId b ≤ w.used usage keyId a :=
  sumCu_anti hrows (w.start_mono h)

theorem WindowUsage.le_of_not_wouldExceed {u : WindowUsage} {additional limit : ℚ}
    (hlimit : u.limit = limit) (hpos : 0 < limit) (h : ¬ u.wouldExceed additional = true) :
    u.used + additional ≤ limit := by
  have hpos : (0 : Quota) < limit := WithTop.coe_pos.mpr hpos
  unfold wouldExceed at h
  rw [hlimit, if_neg (not_le.mpr hpos), decide_eq_true_iff, not_lt, WithTop.coe_le_coe] at h
  exact h

namespace GatewayDesk

/-- The estimate of an access of key `k` in flight. -/
def heldEstimate (k : String) (v : Issued) : ℚ := if Issued.openFor k v then v.estimate else 0

/-- The estimates of the requests of key `k` in flight. -/
def heldEstimates (s : GatewayDesk) (k : String) : ℚ := (s.issued.map (heldEstimate k)).sum

/-- The requests of one key as the bound assumes them: time does not go back, the quota of the
window is `limit`, no estimate is above `most`, and no request records more than its own
estimate. -/
def Metered (key : String) (w : Window) (limit most : ℚ) (s : GatewayDesk) : Ev → Prop
  | .authorize req ans => s.clock ≤ ans.now ∧
      (s.gateway.authenticateToken req.token ans.verified = .ok key →
        s.gateway.estimate req ≤ most ∧
          ∀ limits, s.gateway.entitle ans.keyAccess req.model = .ok limits → w.quota limits = limit)
  | .finalize i u _ => s.clock ≤ u.ts ∧
      ∀ v, s.issued[i]? = some v → v.access.keyId = key →
        s.gateway.compute u.promptTokens u.completionTokens ≤ v.estimate
  | .abort _ => True

/-- No request of the key records a negative amount of compute units. -/
def CountsUp (key : String) (s : GatewayDesk) : Ev → Prop
  | .finalize i u _ => ∀ v, s.issued[i]? = some v → v.access.keyId = key →
      0 ≤ s.gateway.compute u.promptTokens u.completionTokens
  | _ => True

/-- The weights of the cost model that `Settings` accepts. -/
structure Weighted (settings : GatewaySettings) : Prop where
  prompt : 0 ≤ settings.cuPromptWeight
  completion : 0 ≤ settings.cuCompletionWeight

/-- The invariant behind the bound. -/
structure QuotaInv (settings : GatewaySettings) (key : String) (w : Window) (limit most : ℚ)
    (s : GatewayDesk) : Prop where
  sound : s.Sound
  config : s.gateway.settings = settings
  slots : s.issued.countP (Issued.openFor key) ≤ s.gateway.limiter.inflight key
  estimates : ∀ v ∈ s.issued, Issued.openFor key v = true → 0 ≤ v.estimate ∧ v.estimate ≤ most
  rows : ∀ u ∈ s.gateway.usage, u.keyId = key → 0 ≤ u.cu
  bound : w.used s.gateway.usage key s.clock + s.heldEstimates key ≤
    limit + (settings.maxConcurrentPerKey - 1) * most

variable {s s' t : GatewayDesk} {settings : GatewaySettings} {key : String} {w : Window}
  {limit most : ℚ}

theorem compute_nonneg {g : Gateway} (hw : Weighted g.settings)
    {promptTokens completionTokens : Int} (hp : 0 ≤ promptTokens) (hc : 0 ≤ completionTokens) :
    0 ≤ g.compute promptTokens completionTokens := by
  unfold Gateway.compute
  have := mul_nonneg (Int.cast_nonneg (R := ℚ) hp) hw.prompt
  have := mul_nonneg (Int.cast_nonneg (R := ℚ) hc) hw.completion
  linarith

theorem estimate_nonneg {g : Gateway} (hw : Weighted g.settings) (req : AuthRequest) :
    0 ≤ g.estimate req :=
  compute_nonneg hw (Int.natCast_nonneg _) (Int.natCast_nonneg _)

/-- The estimates in flight are at most one `most` for each request in flight. -/
theorem heldEstimates_le (h : ∀ v ∈ s.issued, Issued.openFor key v = true → v.estimate ≤ most) :
    s.heldEstimates key ≤ s.issued.countP (Issued.openFor key) * most := by
  unfold heldEstimates
  revert h
  induction s.issued with
  | nil => simp
  | cons v issued ih =>
    intro h
    have hrest := ih fun u hu => h u (List.mem_cons_of_mem _ hu)
    rw [List.map_cons, List.sum_cons, List.countP_cons, heldEstimate]
    by_cases hopen : Issued.openFor key v = true
    · have hv := h v (List.mem_cons_self ..) hopen
      simp only [hopen, if_true]
      push_cast
      linarith
    · simp only [hopen, Bool.false_eq_true, if_false, Nat.add_zero, zero_add]
      exact hrest

theorem heldEstimates_close (key : String) {i : Nat} {v : Issued} {a : ApiAccess}
    (hi : s.issued[i]? = some v) (ha : a.finalized = true)
      (his : s'.issued = s.issued.set i { v with access := a }) :
    s'.heldEstimates key + heldEstimate key v = s.heldEstimates key := by
  have hsum := Count.sum_map_set_add (f := heldEstimate key) (b := { v with access := a }) hi
  have hzero : heldEstimate key { v with access := a } = 0 := by
    simp [heldEstimate, Issued.openFor, ha]
  unfold heldEstimates
  rw [his, hsum, hzero, add_zero]

theorem init_quotaInv (hlimit : 0 < limit) (hmost : 0 ≤ most)
    (hpos : 0 < settings.maxConcurrentPerKey) (now : ℚ) :
    QuotaInv settings key w limit most (init settings now) := by
  refine ⟨init_sound settings now, rfl, Nat.zero_le _, by simp [init], by simp [init, Gateway.init],
    ?_⟩
  have hone : (1 : ℚ) ≤ settings.maxConcurrentPerKey := by exact_mod_cast hpos
  have hmul := mul_nonneg (sub_nonneg.mpr hone) hmost
  have hzero : w.used (init settings now).gateway.usage key (init settings now).clock +
      (init settings now).heldEstimates key = 0 := by
    simp [Window.used, sumCu, heldEstimates, init, Gateway.init]
  linarith

/-- A request that passes the pre-check fits what is left of both windows. -/
theorem checkQuota_ok {g : Gateway} {a a' : ApiAccess} {limits : KeyLimits} {req : AuthRequest}
    {ans : AuthAnswers} (h : (g.checkQuota a limits req ans).1 = .ok a') :
    a'.keyId = a.keyId ∧ a'.finalized = a.finalized ∧
      ∀ (w : Window) (limit : ℚ), w.quota limits = limit → 0 < limit →
        w.used g.usage a.keyId ans.now + g.estimate req ≤ limit := by
  unfold Gateway.checkQuota at h
  cases h5 : ans.usage5hExc with
  | some e => simp [h5] at h
  | none =>
    cases hw : ans.usageWeeklyExc with
    | some e => simp [h5, hw] at h
    | none =>
      simp only [h5, hw] at h
      split at h
      · cases h
      · split at h
        · cases h
        · rename_i hweek
          split at h
          · cases h
          · rename_i h5h
            cases h
            refine ⟨rfl, rfl, fun w limit hquota hpos => ?_⟩
            cases w with
            | weekly => exact WindowUsage.le_of_not_wouldExceed hquota hpos hweek
            | rolling5h => exact WindowUsage.le_of_not_wouldExceed hquota hpos h5h

/-- What an access of a key of the key store says of the call that returned it. -/
theorem authorizeToken_ok {g : Gateway} {req : AuthRequest} {ans : AuthAnswers} {a : ApiAccess}
    (h : (g.authorizeToken req ans).1 = .ok a) (hkey : a.keyId ≠ localKeyId) :
    g.authenticateToken req.token ans.verified = .ok a.keyId ∧ a.finalized = false ∧
      ∃ limits, g.entitle ans.keyAccess req.model = .ok limits ∧
        ∀ (w : Window) (limit : ℚ), w.quota limits = limit → 0 < limit →
          w.used g.usage a.keyId ans.now + g.estimate req ≤ limit := by
  cases hreach : g.reachesQuota req ans with
  | false =>
    obtain ⟨⟨e, he⟩ | ha, -⟩ := Gateway.authorizeToken_stops hreach
    · rw [h] at he
      cases he
    · rw [h] at ha
      cases ha
      exact absurd rfl hkey
  | true =>
    obtain ⟨keyId, limits, l, hauth, -, hent, -, -, -, heq⟩ := Gateway.authorizeToken_reaches hreach
    rw [heq] at h
    obtain ⟨hid, hf, hfit⟩ := checkQuota_ok h
    refine ⟨?_, hf, limits, hent, ?_⟩
    · rw [hid]
      exact hauth
    · rw [hid]
      exact hfit

theorem QuotaInv.later (h : QuotaInv settings key w limit most s) {now : ℚ} (hnow : s.clock ≤ now) :
    w.used s.gateway.usage key now + s.heldEstimates key ≤
      limit + (settings.maxConcurrentPerKey - 1) * most := by
  have := w.used_anti h.rows hnow
  have := h.bound
  linarith

/-- A call of `authorize_token` takes no slot of a key away. -/
theorem authorizeToken_inflight_ge (g : Gateway) (req : AuthRequest) (ans : AuthAnswers)
    (k : String) : g.limiter.inflight k ≤ (g.authorizeToken req ans).2.limiter.inflight k := by
  rcases Gateway.authorizeToken_cases g req ans with ⟨a, -, -, -, -, hin⟩ | ⟨e, -, -, hin⟩ |
    ⟨e, -, -, keyId, -, hin⟩
  · rw [hin]
    omega
  · rw [hin]
  · rw [hin]
    omega

/-- An access of the key that has passed the pre-check, beside those in flight. -/
theorem quotaInv_append {a : ApiAccess} {est now : ℚ} (hmost : 0 ≤ most)
    (h : QuotaInv settings key w limit most s) (hs' : s'.Sound)
    (hconfig : s'.gateway.settings = settings) (hpos : 0 < settings.maxConcurrentPerKey)
    (husage : s'.gateway.usage = s.gateway.usage) (hclock : s'.clock = now)
    (hissued : s'.issued = s.issued ++ [⟨a, est⟩]) (hopen : Issued.openFor key ⟨a, est⟩ = true)
    (hslots : s'.issued.countP (Issued.openFor key) ≤ s'.gateway.limiter.inflight key)
    (hest : 0 ≤ est ∧ est ≤ most) (hfit : w.used s.gateway.usage key now + est ≤ limit) :
    QuotaInv settings key w limit most s' := by
  refine ⟨hs', hconfig, hslots, ?_, ?_, ?_⟩
  · intro v hv hv'
    rw [hissued, List.mem_append, List.mem_singleton] at hv
    rcases hv with hv | rfl
    · exact h.estimates v hv hv'
    · exact hest
  · rw [husage]
    exact h.rows
  · have hheld : s'.heldEstimates key = s.heldEstimates key + est := by
      simp [heldEstimates, heldEstimate, hissued, hopen]
    have hcount : s'.issued.countP (Issued.openFor key) =
        s.issued.countP (Issued.openFor key) + 1 := by
      rw [hissued, List.countP_append, List.countP_singleton, hopen, if_pos rfl]
    have hothers := heldEstimates_le fun v hv ho => (h.estimates v hv ho).2
    have hmax := hs'.bound key (by rw [hconfig]; exact hpos)
    rw [hconfig] at hmax
    have hcast : (s.issued.countP (Issued.openFor key) : ℚ) ≤
        (settings.maxConcurrentPerKey : ℚ) - 1 := by
      have : (s.issued.countP (Issued.openFor key) : ℤ) ≤ settings.maxConcurrentPerKey - 1 := by
        omega
      exact_mod_cast this
    have hmul := mul_le_mul_of_nonneg_right hcast hmost
    rw [husage, hclock, hheld]
    linarith

/-- A step that leaves the accesses of the key and the usage alone. -/
theorem quotaInv_same (h : QuotaInv settings key w limit most s) (hs' : s'.Sound)
    (hconfig : s'.gateway.settings = settings) (husage : s'.gateway.usage = s.gateway.usage)
    (hclock : s.clock ≤ s'.clock)
    (hissued : s'.issued = s.issued ∨
      ∃ v, Issued.openFor key v = false ∧ s'.issued = s.issued ++ [v])
    (hslots : s.gateway.limiter.inflight key ≤ s'.gateway.limiter.inflight key) :
    QuotaInv settings key w limit most s' := by
  have hlater := h.later hclock
  have hrows := h.rows
  rw [← husage] at hlater hrows
  rcases hissued with hissued | ⟨v, hv, hissued⟩
  · refine ⟨hs', hconfig, ?_, ?_, hrows, ?_⟩
    · rw [hissued]
      exact h.slots.trans hslots
    · rw [hissued]
      exact h.estimates
    · simpa only [heldEstimates, hissued] using hlater
  · refine ⟨hs', hconfig, ?_, ?_, hrows, ?_⟩
    · rw [hissued, List.countP_append, List.countP_singleton, hv]
      exact h.slots.trans hslots
    · intro u hu ho
      rw [hissued, List.mem_append, List.mem_singleton] at hu
      rcases hu with hu | rfl
      · exact h.estimates u hu ho
      · rw [hv] at ho
        cases ho
    · have hheld : s'.heldEstimates key = s.heldEstimates key := by
        simp [heldEstimates, heldEstimate, hissued, hv]
      rw [hheld]
      exact hlater

theorem authorize_quotaInv {req : AuthRequest} {ans : AuthAnswers}
    (hw : Weighted settings) (hkey : key ≠ localKeyId) (hlimit : 0 < limit)
    (hmost : 0 ≤ most) (hpos : 0 < settings.maxConcurrentPerKey)
    (h : QuotaInv settings key w limit most s)
      (hm : s.Metered key w limit most (.authorize req ans))
      (hst : s.step (.authorize req ans) = some s') : QuotaInv settings key w limit most s' := by
  have hs' := step_sound h.sound hst
  obtain ⟨hnow, hmkey⟩ := hm
  obtain ⟨hset, husage, -, -⟩ := authorizeToken_frame s.gateway req ans
  have hge := authorizeToken_inflight_ge s.gateway req ans key
  rcases step_cases hst with ⟨req', ans', hev, hg, hclock, hres⟩ | ⟨i, v, u, exc, hev, -⟩ |
    ⟨i, v, hev, -⟩
  · cases hev
    have hconfig : s'.gateway.settings = settings := by rw [hg, hset, h.config]
    rw [← hg] at husage hge
    rw [← hclock] at hnow
    rcases hres with ⟨a, ha, hissued⟩ | ⟨e, -, hissued⟩
    · by_cases hk : a.keyId = key
      · subst hk
        obtain ⟨hauth, hf, limits, hent, hfit⟩ := authorizeToken_ok ha hkey
        obtain ⟨hest, hquota⟩ := hmkey hauth
        have hfit := hfit w limit (hquota limits hent) hlimit
        have hopen : Issued.openFor a.keyId ⟨a, s.gateway.estimate req⟩ = true := by
          simp [Issued.openFor, hf]
        have hnonneg : 0 ≤ s.gateway.estimate req :=
          estimate_nonneg (by rw [h.config]; exact hw) req
        refine quotaInv_append hmost h hs' hconfig hpos husage hclock hissued hopen ?_
          ⟨hnonneg, hest⟩ hfit
        rcases Gateway.authorizeToken_cases s.gateway req ans with ⟨a', ha', -, hheld, -, hin⟩ |
          ⟨e, he, -⟩ | ⟨e, he, -⟩
        · rw [ha] at ha'
          cases ha'
          have hslot : a.slots a.keyId = 1 := by
            simp [ApiAccess.slots, ApiAccess.holds, hheld, hkey]
          rw [hissued, List.countP_append, List.countP_singleton, hopen, hg, hin, hslot]
          have := h.slots
          simp only [if_true]
          omega
        · rw [ha] at he
          cases he
        · rw [ha] at he
          cases he
      · refine quotaInv_same h hs' hconfig husage hnow (.inr ⟨_, ?_, hissued⟩) hge
        simp [Issued.openFor, hk]
    · exact quotaInv_same h hs' hconfig husage hnow (.inl hissued) hge
  · cases hev
  · cases hev

theorem quotaInv_close {i : Nat} {v : Issued} {a : ApiAccess} (hkey : key ≠ localKeyId)
    (h : QuotaInv settings key w limit most s) (hs' : s'.Sound) (hi : s.issued[i]? = some v)
    (hcl : Closes v.access s.gateway a s'.gateway)
    (hissued : s'.issued = s.issued.set i { v with access := a })
    (hrows : ∀ u ∈ s'.gateway.usage, u.keyId = key → 0 ≤ u.cu) (hclock : s.clock ≤ s'.clock)
    (hused : w.used s'.gateway.usage key s'.clock ≤
      w.used s.gateway.usage key s'.clock + heldEstimate key v) :
    QuotaInv settings key w limit most s' := by
  refine ⟨hs', hcl.settings.trans h.config, ?_, ?_, hrows, ?_⟩
  · have hcount := countP_close hi hcl.finalized key
    have hslots := h.slots
    rw [hissued, hcl.inflight, slots_openFor h.sound (List.mem_of_getElem? hi) hkey]
    omega
  · intro u hu ho
    rw [hissued] at hu
    rcases List.mem_or_eq_of_mem_set hu with hu | rfl
    · exact h.estimates u hu ho
    · simp [Issued.openFor, hcl.finalized] at ho
  · have hheld := heldEstimates_close key hi hcl.finalized hissued
    have hlater := h.later hclock
    linarith

theorem heldEstimate_nonneg {v : Issued} (h : QuotaInv settings key w limit most s)
    (hv : v ∈ s.issued) : 0 ≤ heldEstimate key v := by
  unfold heldEstimate
  split
  · exact (h.estimates v hv ‹_›).1
  · exact le_refl 0

theorem finalize_used {v : Issued} {u : UsageReport} (exc : Option Exc)
    (h : QuotaInv settings key w limit most s) (hv : v ∈ s.issued)
    (hcu : v.access.keyId = key → s.gateway.compute u.promptTokens u.completionTokens ≤ v.estimate)
    (hup : v.access.keyId = key → 0 ≤ s.gateway.compute u.promptTokens u.completionTokens)
    (now : ℚ) :
    (∀ r ∈ (v.access.finalize s.gateway u exc).2.2.usage, r.keyId = key → 0 ≤ r.cu) ∧
      w.used (v.access.finalize s.gateway u exc).2.2.usage key now ≤
        w.used s.gateway.usage key now + heldEstimate key v := by
  have hheld := heldEstimate_nonneg h hv
  unfold ApiAccess.finalize
  by_cases hf : v.access.finalized = true
  · rw [if_pos hf]
    exact ⟨h.rows, by linarith⟩
  · rw [if_neg hf]
    by_cases hexc : exc.isSome = true
    · simp only [hexc, if_true]
      exact ⟨h.rows, by linarith⟩
    · simp only [hexc, Bool.false_eq_true, if_false]
      refine ⟨?_, ?_⟩
      · intro r hr
        rw [List.mem_append, List.mem_singleton] at hr
        rcases hr with hr | rfl
        · exact h.rows r hr
        · exact hup
      · unfold Window.used
        rw [sumCu_append]
        by_cases hk : v.access.keyId = key
        · have hopen : heldEstimate key v = v.estimate := by
            simp [heldEstimate, Issued.openFor, hk, hf]
          have hle := hcu hk
          simp only [hopen]
          split <;> linarith
        · simp only [hk, false_and, if_false]
          linarith

theorem step_quotaInv {ev : Ev} (hw : Weighted settings) (hkey : key ≠ localKeyId)
    (hlimit : 0 < limit) (hmost : 0 ≤ most) (hpos : 0 < settings.maxConcurrentPerKey)
    (h : QuotaInv settings key w limit most s) (hm : s.Metered key w limit most ev)
    (hup : s.CountsUp key ev) (hst : s.step ev = some s') :
    QuotaInv settings key w limit most s' := by
  have hs' := step_sound h.sound hst
  rcases step_cases hst with ⟨req, ans, rfl, -⟩ | ⟨i, v, u, exc, rfl, hi, hclock, hg, his⟩ |
    ⟨i, v, rfl, hi, hclock, hg, his⟩
  · exact authorize_quotaInv hw hkey hlimit hmost hpos h hm hst
  · have hcl := finalize_closes v.access s.gateway u exc
    rw [← hg] at hcl
    obtain ⟨hrows, hused⟩ := finalize_used exc h (List.mem_of_getElem? hi)
      (hm.2 v hi) (hup v hi) s'.clock
    rw [← hg] at hrows hused
    exact quotaInv_close hkey h hs' hi hcl his hrows (hclock ▸ hm.1) hused
  · have hcl := abort_closes v.access s.gateway
    have husage : (v.access.abort s.gateway).2.usage = s.gateway.usage := by
      unfold ApiAccess.abort
      split
      · rfl
      · split <;> rfl
    rw [← hg] at hcl husage
    have hheld := heldEstimate_nonneg h (List.mem_of_getElem? hi)
    refine quotaInv_close hkey h hs' hi hcl his ?_ hclock.ge ?_
    · rw [husage]
      exact h.rows
    · rw [husage]
      linarith

/-- **The quota is exceeded by less than the requests in flight allow, while the key records nothing
negative.** For a key with quota `limit` on a window and `max_concurrent_per_key` positive, in every
interleaving in which no estimate is above `most` and no request records more than its own estimate
or a negative amount, the usage of the current window is at every moment at most `limit +
(max_concurrent_per_key - 1) * most`; with one request at a time the quota is never exceeded. -/
theorem quota_bounded (hw : Weighted settings) (hkey : key ≠ localKeyId) (w : Window)
    (hlimit : 0 < limit) (hmost : 0 ≤ most) (hpos : 0 < settings.maxConcurrentPerKey) {start : ℚ}
    {ls : List Ev} (h : Run step (init settings start) ls s)
    (hm : Guarded step (Metered key w limit most) (init settings start) ls)
    (hup : Guarded step (CountsUp key) (init settings start) ls) {now : ℚ} (hnow : s.clock ≤ now) :
    w.used s.gateway.usage key now ≤ limit + (settings.maxConcurrentPerKey - 1) * most ∧
      (settings.maxConcurrentPerKey = 1 → w.used s.gateway.usage key now ≤ limit) := by
  have hinv : QuotaInv settings key w limit most s :=
    h.invariant_of_guarded
      (fun _ _ _ hs hok hst => step_quotaInv hw hkey hlimit hmost hpos hs hok.1 hok.2 hst)
      (hm.and hup) (init_quotaInv hlimit hmost hpos start)
  have hheld : 0 ≤ s.heldEstimates key := by
    unfold heldEstimates
    apply List.sum_nonneg
    intro x hx
    obtain ⟨v, hv, rfl⟩ := List.mem_map.mp hx
    exact heldEstimate_nonneg hinv hv
  have hbound := hinv.later hnow
  refine ⟨by linarith, fun hone => ?_⟩
  rw [hone] at hbound
  simp only [Int.cast_one, sub_self, zero_mul, add_zero] at hbound
  linarith

instance (key : String) (w : Window) (limit most : ℚ) (s : GatewayDesk) :
    (ev : Ev) → Decidable (s.Metered key w limit most ev)
  | .authorize req ans =>
    have : Decidable (∀ limits, s.gateway.entitle ans.keyAccess req.model = .ok limits →
        w.quota limits = limit) :=
      match h : s.gateway.entitle ans.keyAccess req.model with
      | .error e => .isTrue (by simp)
      | .ok l => decidable_of_iff (w.quota l = limit) (by simp)
    inferInstanceAs (Decidable (s.clock ≤ ans.now ∧
      (s.gateway.authenticateToken req.token ans.verified = .ok key →
        s.gateway.estimate req ≤ most ∧ ∀ limits,
        s.gateway.entitle ans.keyAccess req.model = .ok limits → w.quota limits = limit)))
  | .finalize i u _ =>
    have : Decidable (∀ v, s.issued[i]? = some v → v.access.keyId = key →
        s.gateway.compute u.promptTokens u.completionTokens ≤ v.estimate) :=
      match h : s.issued[i]? with
      | none => .isTrue (by simp)
      | some v => decidable_of_iff (v.access.keyId = key →
          s.gateway.compute u.promptTokens u.completionTokens ≤ v.estimate) (by simp)
    inferInstanceAs (Decidable (s.clock ≤ u.ts ∧ ∀ v, s.issued[i]? = some v →
      v.access.keyId = key → s.gateway.compute u.promptTokens u.completionTokens ≤ v.estimate))
  | .abort _ => .isTrue trivial

instance (key : String) (s : GatewayDesk) : (ev : Ev) → Decidable (s.CountsUp key ev)
  | .finalize i u _ =>
    match h : s.issued[i]? with
    | none => .isTrue (by simp [CountsUp, h])
    | some v => decidable_of_iff (v.access.keyId = key →
        0 ≤ s.gateway.compute u.promptTokens u.completionTokens) (by simp [CountsUp, h])
  | .authorize .. | .abort _ => .isTrue trivial

/-- Two requests at a time, and a weekly quota of 20 units. -/
def twoAtATime : GatewaySettings where
  requireAuth := true
  quota5hCu := 0
  quotaWeeklyCu := 20
  rateLimitPerMin := 0
  maxConcurrentPerKey := 2

/-- A request of key `a` for some tokens, at a time. -/
def requestAt (now : ℚ) (maxTokens : Nat) : Ev :=
  .authorize
    { token := some "a", promptText := .ofString "hello", maxTokens := maxTokens, endpoint := "/v1",
      model := none }
    { verified := .ok (some "a"), now := now }

/-- Two requests pass the pre-check together, on a Sunday; one is recorded before the week ends and
the other after. -/
def acrossTheWeek : List Ev :=
  [requestAt 345590 16, requestAt 345595 16, .finalize 0 ⟨345599, "r", none, 2, 16, 200⟩ none,
    .finalize 1 ⟨345601, "s", none, 2, 16, 200⟩ none]

def acrossTheWeekEnd : GatewayDesk :=
  (exec step (init twoAtATime 0) acrossTheWeek).get (by decide +kernel)

theorem quota_bounded_acrossTheWeek :
    acrossTheWeekEnd.gateway.usage.map (·.cu) = [18, 18] ∧
      Window.weekly.used acrossTheWeekEnd.gateway.usage "a" 345602 ≤ 20 + (2 - 1) * 18 := by
  have hrun : Run step (init twoAtATime 0) acrossTheWeek acrossTheWeekEnd :=
    run_of_exec (by simp [acrossTheWeekEnd])
  have hmetered : Guarded step (Metered "a" .weekly 20 18) (init twoAtATime 0) acrossTheWeek := by
    decide +kernel
  have hup : Guarded step (CountsUp "a") (init twoAtATime 0) acrossTheWeek := by decide +kernel
  have hnow : acrossTheWeekEnd.clock ≤ 345602 := by decide +kernel
  have hbound := quota_bounded ⟨by decide +kernel, by decide +kernel⟩ (by decide) .weekly
    (by decide +kernel) (by decide +kernel) (by decide) hrun hmetered hup hnow
  exact ⟨by decide +kernel, by simpa [twoAtATime] using hbound.1⟩

/-- The upstream reports -902 completion tokens; the next two requests are recorded in full, and the
negative row leaves the window before theirs. -/
def negativeRecord : List Ev :=
  [requestAt 0 998, .finalize 0 ⟨1, "r", none, 2, -902, 200⟩ none,
    requestAt 2 998, .finalize 1 ⟨3, "s", none, 2, 998, 200⟩ none,
    requestAt 4 898, .finalize 2 ⟨5, "t", none, 2, 898, 200⟩ none]

def negativeRecordEnd : GatewayDesk :=
  (exec step (init oneAtATime 0) negativeRecord).get (by decide +kernel)

/-- Every request meets what the bound assumes of it, and half a second after the first record has
left the window, it holds 1900 units. -/
theorem negativeRecord_exceeds :
    Run step (init oneAtATime 0) negativeRecord negativeRecordEnd ∧
      Guarded step (Metered "a" .rolling5h 1000 1000) (init oneAtATime 0) negativeRecord ∧
      negativeRecordEnd.clock ≤ 36003 / 2 ∧
      Window.rolling5h.used negativeRecordEnd.gateway.usage "a" (36003 / 2) = 1900 :=
  ⟨run_of_exec (by simp [negativeRecordEnd]),
    by decide +kernel, by decide +kernel, by decide +kernel⟩

end GatewayDesk
end InferenceEngine
