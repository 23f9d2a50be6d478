import Mathlib.Algebra.Order.Monoid.WithTop
import InferenceEngine.Gateway.Limiter
import InferenceEngine.Inference.Types
import InferenceEngine.Lib.Binary64
import InferenceEngine.Lib.PyStr
import InferenceEngine.Lib.Utf8

/-!
# Gateway.Authorize

The secure gateway (`gateway.py`): authentication, billing entitlement, rate and concurrency limits,
the compute-unit quota (`quota/`), and the usage record of a finished request.

The key store and the billing store answer from a database; their answers, and the exceptions the
database may raise, are inputs of a call (`AuthAnswers`). The usage store is the list of its rows;
the weights of the cost model are finite, and sums are exact. The `x-ratelimit-*` headers of a
refusal and the `on_usage_recorded` hook, whose exceptions are swallowed, touch nothing here and are
left out.

* `authorizeToken_cases`: a returned access holds one slot of its key, unless the key is the local
  one; an error leaves the slots as they were, unless the quota pre-check raised (`quotaRaises`):
  the usage store did, or a quota is infinite and cannot be written into a header.
* `finalize_inflight`, `abort_inflight`: the slot goes back, whatever the store does.
-/

namespace InferenceEngine

/-- `LOCAL_KEY_ID`: unauthenticated loopback attribution. -/
def localKeyId : String := "local"

/-- A quota in compute units. Settings and plans take the infinite one, too. -/
abbrev Quota := WithTop ℚ

structure GatewaySettings where
  requireAuth : Bool
  quota5hCu : Quota
  quotaWeeklyCu : Quota
  cuPromptWeight : ℚ := 1
  cuCompletionWeight : ℚ := 1
  rateLimitPerMin : Int
  maxConcurrentPerKey : Int

structure UsageEvent where
  ts : ℚ
  keyId : String
  requestId : String
  endpoint : String
  model : Option String
  promptTokens : Int
  completionTokens : Int
  cu : ℚ
  status : Nat
  deriving DecidableEq, Repr

structure WindowUsage where
  used : ℚ
  limit : Quota
  resetAt : ℚ
  deriving DecidableEq, Repr

namespace WindowUsage

def remaining (w : WindowUsage) : Quota :=
  if w.limit ≤ 0 then ⊤ else max 0 (w.limit.map (· - w.used))

def wouldExceed (w : WindowUsage) (additional : ℚ) : Bool :=
  if w.limit ≤ 0 then false else w.limit < ((w.used + additional : ℚ) : Quota)

end WindowUsage

/-- `int` of a float. -/
def intOfFloat : Quota → Except Exc Int
  | ⊤ => .error (.other "cannot convert float infinity to integer")
  | some q => .ok (q.num.tdiv q.den)

/-- The headers of one window; none when it is unlimited. -/
def WindowUsage.headers (w : WindowUsage) (window : String) : Except Exc (List (String × String)) :=
  if 0 < w.limit then do
    let limit ← intOfFloat w.limit
    let remaining ← intOfFloat w.remaining
    let reset ← intOfFloat w.resetAt
    return [("x-ratelimit-limit-cu-" ++ window, toString limit),
      ("x-ratelimit-remaining-cu-" ++ window, toString remaining),
      ("x-ratelimit-reset-cu-" ++ window, toString reset)]
  else return []

/-- `_quota_headers`. -/
def quotaHeaders (u5h uweek : WindowUsage) : Except Exc (List (String × String)) := do
  let headers5h ← u5h.headers "5h"
  let headersWeek ← uweek.headers "week"
  return headers5h ++ headersWeek

/-- `week_start`: Monday 00:00 UTC of the week of `now`, rounded to a microsecond (1970-01-01 was a
Thursday). -/
def weekStart (now : ℚ) : ℚ :=
  let day := halfEven (now * 1000000) / 86400000000
  ((day - (day + 3) % 7 : Int) : ℚ) * 86400

/-- `_sum_cu`. -/
def sumCu (usage : List UsageEvent) (keyId : String) (since : ℚ) : ℚ :=
  ((usage.filter fun u => u.keyId = keyId ∧ since ≤ u.ts).map (·.cu)).sum

/-- `usage_5h`. -/
def usage5h (usage : List UsageEvent) (keyId : String) (limit : Quota) (now : ℚ) : WindowUsage where
  used := sumCu usage keyId (now - 5 * 60 * 60)
  limit := limit
  resetAt := now + 5 * 60 * 60

/-- `usage_weekly`. -/
def usageWeekly (usage : List UsageEvent) (keyId : String) (limit : Quota) (now : ℚ) :
    WindowUsage where
  used := sumCu usage keyId (weekStart now)
  limit := limit
  resetAt := weekStart now + 7 * 24 * 60 * 60

/-- `estimate_prompt_tokens`: about four characters a token. -/
def estimatePromptTokens (text : Utf8.Text) : Nat := max 1 ((text.length + 3) / 4)

inductive KeyStatus where
  | active
  | suspended
  | revoked
  deriving DecidableEq, Repr

structure Entitlement where
  quota5hCu : Quota
  quotaWeeklyCu : Quota
  rateLimitPerMin : Option Int
  allowedModels : Option (List String)
  deriving DecidableEq, Repr

structure KeyAccess where
  status : KeyStatus
  entitlement : Option Entitlement
  deriving DecidableEq, Repr

/-- What the stores answer during one call of `authorize_token`. -/
structure AuthAnswers where
  /-- `keys.verify(token)`: the id of the key's record -/
  verified : Except Exc (Option String)
  /-- `billing.key_access(key_id)`; `none` without billing -/
  keyAccess : Option (Except Exc KeyAccess) := none
  usage5hExc : Option Exc := none
  usageWeeklyExc : Option Exc := none
  now : ℚ

/-- The usage store raises in one of the reads of the quota pre-check. -/
def AuthAnswers.usageRaises (ans : AuthAnswers) : Bool :=
  ans.usage5hExc.isSome || ans.usageWeeklyExc.isSome

structure AuthRequest where
  token : Option String
  promptText : Utf8.Text
  maxTokens : Nat
  endpoint : String
  model : Option String

/-- `ApiAccess`: the handle of one authorized request. -/
structure ApiAccess where
  keyId : String
  endpoint : String
  headers : List (String × String) := []
  slotHeld : Bool := false
  finalized : Bool := false
  deriving DecidableEq, Repr

structure Gateway where
  settings : GatewaySettings
  limiter : Limiter
  usage : List UsageEvent

structure KeyLimits where
  quota5hCu : Quota
  quotaWeeklyCu : Quota
  rate : Option Int

def KeyLimits.infinite (l : KeyLimits) : Bool := l.quota5hCu = ⊤ || l.quotaWeeklyCu = ⊤

namespace Gateway

def init (settings : GatewaySettings) : Gateway where
  settings := settings
  limiter := .init settings.rateLimitPerMin settings.maxConcurrentPerKey
  usage := []

/-- `ComputeModel.actual`; `estimate` is the same function of the requested output cap. -/
def compute (g : Gateway) (promptTokens completionTokens : Int) : ℚ :=
  promptTokens * g.settings.cuPromptWeight + completionTokens * g.settings.cuCompletionWeight

/-- `_authenticate_token`. -/
def authenticateToken (g : Gateway) (token : Option String)
    (verified : Except Exc (Option String)) :
    Except Exc String :=
  let refuse (message code : String) : Except Exc String :=
    if g.settings.requireAuth then
      .error (.edge { message := message, statusCode := 401, code := code })
    else .ok localKeyId
  if token.isNone ∨ token = some "" then refuse "missing API key" "missing_api_key"
  else
    match verified with
    | .error e => .error e
    | .ok (some id) => .ok id
    -- an unrecognized token is rejected only when authentication is required
    | .ok none => refuse "invalid API key" "invalid_api_key"

/-- The billing part of `authorize_token`. -/
def entitle (g : Gateway) (keyAccess : Option (Except Exc KeyAccess)) (model : Option String) :
    Except Exc KeyLimits :=
  let engineWide : KeyLimits := ⟨g.settings.quota5hCu, g.settings.quotaWeeklyCu, none⟩
  match keyAccess with
  | none => .ok engineWide
  | some (.error e) => .error e
  | some (.ok access) =>
    match access.status, access.entitlement with
    | .revoked, _ =>
      .error (.edge { message := "API key revoked", statusCode := 403, code := "key_revoked" })
    | .suspended, _ =>
      .error (.edge
        { message := "API key suspended for this account", statusCode := 403,
          code := "key_suspended" })
    | .active, none => .ok engineWide
    | .active, some ent =>
      match ent.allowedModels, model with
      | some names, some m =>
        if names.contains m then .ok ⟨ent.quota5hCu, ent.quotaWeeklyCu, ent.rateLimitPerMin⟩
        else
          .error (.edge
            { message := "model " ++ Py.repr m ++ " is not included in this plan", statusCode := 403,
              code := "model_not_entitled" })
      | _, _ => .ok ⟨ent.quota5hCu, ent.quotaWeeklyCu, ent.rateLimitPerMin⟩

end Gateway

/-- The error of a limit or a quota. -/
def limitError (message code : String) (retryAfterS : Int) : Exc :=
  .edge
    { message := message, statusCode := 429, type := "rate_limit_error", code := code,
      retryAfterS := some retryAfterS }

/-- `ApiAccess.abort`. -/
def ApiAccess.abort (a : ApiAccess) (g : Gateway) : ApiAccess × Gateway :=
  if a.finalized then (a, g)
  else
    ({ a with finalized := true, slotHeld := false },
      if a.slotHeld then { g with limiter := g.limiter.release a.keyId } else g)

structure UsageReport where
  ts : ℚ
  requestId : String
  model : Option String
  promptTokens : Int
  completionTokens : Int
  status : Nat

/-- `ApiAccess.finalize`; `recordExc` is what the usage store raises. The slot goes back in a
`finally`. -/
def ApiAccess.finalize (a : ApiAccess) (g : Gateway) (u : UsageReport) (recordExc : Option Exc) :
    Option Exc × ApiAccess × Gateway :=
  if a.finalized then (none, a, g)
  else
    let row : UsageEvent :=
      { ts := u.ts
        keyId := a.keyId
        requestId := u.requestId
        endpoint := a.endpoint
        model := u.model
        promptTokens := u.promptTokens
        completionTokens := u.completionTokens
        cu := g.compute u.promptTokens u.completionTokens
        status := u.status }
    (recordExc, { a with finalized := true, slotHeld := false },
      { g with
        usage := if recordExc.isSome then g.usage else g.usage ++ [row]
        limiter := if a.slotHeld then g.limiter.release a.keyId else g.limiter })

namespace Gateway

/-- The quota pre-check of `authorize_token`, with the slot of the key held. -/
def checkQuota (g : Gateway) (a : ApiAccess) (limits : KeyLimits) (req : AuthRequest)
    (ans : AuthAnswers) : Except Exc ApiAccess × Gateway :=
  let estimate := g.compute (estimatePromptTokens req.promptText) req.maxTokens
  match ans.usage5hExc, ans.usageWeeklyExc with
  -- what raises from here to the headers is not caught, and nobody aborts the access
  | some e, _ => (.error e, g)
  | none, some e => (.error e, g)
  | none, none =>
    let u5h := usage5h g.usage a.keyId limits.quota5hCu ans.now
    let uweek := usageWeekly g.usage a.keyId limits.quotaWeeklyCu ans.now
    match quotaHeaders u5h uweek with
    | .error e => (.error e, g)
    | .ok headers =>
      if uweek.wouldExceed estimate then
        (.error (limitError "weekly compute quota exceeded" "quota_exceeded"
          (uweek.resetAt - ans.now).floor), (a.abort g).2)
      else if u5h.wouldExceed estimate then
        (.error (limitError "5-hour compute quota exceeded" "quota_exceeded" 60), (a.abort g).2)
      else (.ok { a with headers := headers }, g)

/-- `authorize_token`. The errors before the limits abort an access that holds nothing. -/
def authorizeToken (g : Gateway) (req : AuthRequest) (ans : AuthAnswers) :
    Except Exc ApiAccess × Gateway :=
  match g.authenticateToken req.token ans.verified with
  | .error e => (.error e, g)
  | .ok keyId =>
    let access : ApiAccess := { keyId := keyId, endpoint := req.endpoint }
    if keyId = localKeyId then (.ok access, g)
    else
      match g.entitle ans.keyAccess req.model with
      | .error e => (.error e, g)
      | .ok limits =>
        let rated := g.limiter.checkRate keyId ans.now limits.rate
        let slot := rated.2.acquire keyId
        if !rated.1 then
          (.error (limitError "rate limit exceeded" "rate_limit_exceeded" 60),
            { g with limiter := rated.2 })
        else if !slot.1 then
          (.error (limitError "too many concurrent requests" "concurrency_limit_exceeded" 5),
            { g with limiter := slot.2 })
        else
          checkQuota { g with limiter := slot.2 } { access with slotHeld := true } limits req ans

/-- Does the call get as far as the quota pre-check, with a slot of its key held? -/
def reachesQuota (g : Gateway) (req : AuthRequest) (ans : AuthAnswers) : Bool :=
  match g.authenticateToken req.token ans.verified, g.entitle ans.keyAccess req.model with
  | .ok keyId, .ok limits =>
    let rated := g.limiter.checkRate keyId ans.now limits.rate
    keyId ≠ localKeyId && rated.1 && (rated.2.acquire keyId).1
  | _, _ => false

/-- The quota pre-check raises with the slot held: the usage store does, or a quota of the key is
infinite. -/
def quotaRaises (g : Gateway) (req : AuthRequest) (ans : AuthAnswers) : Bool :=
  g.reachesQuota req ans &&
    (ans.usageRaises || (g.entitle ans.keyAccess req.model).toOption.any (·.infinite))

end Gateway

namespace WindowUsage

variable {w : WindowUsage}

theorem headers_infinite (h : w.limit = ⊤) (window : String) :
    ∃ e, w.headers window = .error e := by
  simp [headers, h, intOfFloat, bind, Except.bind]

theorem headers_finite (h : w.limit ≠ ⊤) (window : String) :
    ∃ headers, w.headers window = .ok headers := by
  obtain ⟨limit, hlimit⟩ := WithTop.ne_top_iff_exists.mp h
  by_cases hpos : (0 : Quota) < limit
  · have hremaining : w.remaining = ((max 0 (limit - w.used) : ℚ) : Quota) := by
      rw [remaining, ← hlimit, if_neg (not_le.mpr hpos), WithTop.map_coe]
      rfl
    simp only [headers, ← hlimit, if_pos hpos, hremaining]
    exact ⟨_, rfl⟩
  · simp only [headers, ← hlimit, if_neg hpos]
    exact ⟨_, rfl⟩

end WindowUsage

/-- The headers cannot be written exactly when one of the limits is infinite. -/
theorem quotaHeaders_cases (u5h uweek : WindowUsage) :
    (∃ headers, quotaHeaders u5h uweek = .ok headers) ∧ u5h.limit ≠ ⊤ ∧ uweek.limit ≠ ⊤ ∨
      (∃ e, quotaHeaders u5h uweek = .error e) ∧ (u5h.limit = ⊤ ∨ uweek.limit = ⊤) := by
  unfold quotaHeaders
  by_cases h5 : u5h.limit = ⊤
  · obtain ⟨e, he⟩ := WindowUsage.headers_infinite h5 "5h"
    exact .inr ⟨⟨e, by rw [he]; rfl⟩, .inl h5⟩
  · obtain ⟨headers5h, h5h⟩ := WindowUsage.headers_finite h5 "5h"
    by_cases hw : uweek.limit = ⊤
    · obtain ⟨e, he⟩ := WindowUsage.headers_infinite hw "week"
      exact .inr ⟨⟨e, by rw [h5h, he]; rfl⟩, .inr hw⟩
    · obtain ⟨headersWeek, hweek⟩ := WindowUsage.headers_finite hw "week"
      exact .inl ⟨⟨_, by rw [h5h, hweek]; rfl⟩, h5, hw⟩

/-- Does the access hold a slot of key `k`? -/
def ApiAccess.holds (a : ApiAccess) (k : String) : Bool := a.slotHeld && a.keyId == k

/-- The slots of key `k` that an access holds. -/
def ApiAccess.slots (a : ApiAccess) (k : String) : Nat := if a.holds k then 1 else 0

variable {g g' : Gateway} {a : ApiAccess} {req : AuthRequest} {ans : AuthAnswers}

theorem abort_inflight (hf : a.finalized = false) (k : String) :
    (a.abort g).2.limiter.inflight k = g.limiter.inflight k - a.slots k := by
  simp only [ApiAccess.abort, hf, Bool.false_eq_true, if_false, ApiAccess.slots,
    ApiAccess.holds]
  by_cases hs : a.slotHeld = true
  · simp [hs, Limiter.release_inflight]
  · simp [hs]

theorem finalize_inflight (hf : a.finalized = false) (u : UsageReport) (exc : Option Exc)
    (k : String) :
    (a.finalize g u exc).2.2.limiter.inflight k = g.limiter.inflight k - a.slots k := by
  simp only [ApiAccess.finalize, hf, Bool.false_eq_true, if_false, ApiAccess.slots,
    ApiAccess.holds]
  by_cases hs : a.slotHeld = true
  · simp [hs, Limiter.release_inflight]
  · simp [hs]

namespace Gateway

/-- The quota pre-check gives the slot back when it refuses, and leaks it when it raises
otherwise. -/
theorem checkQuota_cases (g : Gateway) (a : ApiAccess) (limits : KeyLimits) (req : AuthRequest)
    (ans : AuthAnswers) :
    (∃ headers, (g.checkQuota a limits req ans).1 = .ok { a with headers := headers } ∧
      (g.checkQuota a limits req ans).2 = g ∧ (ans.usageRaises || limits.infinite) = false) ∨
    (∃ e, (g.checkQuota a limits req ans).1 = .error e ∧
      ((ans.usageRaises || limits.infinite) = false ∧
          (g.checkQuota a limits req ans).2 = (a.abort g).2 ∨
        (ans.usageRaises || limits.infinite) = true ∧ (g.checkQuota a limits req ans).2 = g)) := by
  simp only [checkQuota, AuthAnswers.usageRaises]
  cases h5 : ans.usage5hExc with
  | some e => exact .inr ⟨e, rfl, .inr ⟨rfl, rfl⟩⟩
  | none =>
    cases hw : ans.usageWeeklyExc with
    | some e => exact .inr ⟨e, rfl, .inr ⟨rfl, rfl⟩⟩
    | none =>
      simp only [Option.isSome_none, Bool.or_self, Bool.false_or]
      rcases quotaHeaders_cases (usage5h g.usage a.keyId limits.quota5hCu ans.now)
          (usageWeekly g.usage a.keyId limits.quotaWeeklyCu ans.now) with
        ⟨⟨headers, hh⟩, h5top, hwtop⟩ | ⟨⟨e, he⟩, htop⟩
      · have hfin : limits.infinite = false := by
          simp only [usage5h, usageWeekly] at h5top hwtop
          simp [KeyLimits.infinite, h5top, hwtop]
        simp only [hh]
        split
        · exact .inr ⟨_, rfl, .inl ⟨hfin, rfl⟩⟩
        · split
          · exact .inr ⟨_, rfl, .inl ⟨hfin, rfl⟩⟩
          · exact .inl ⟨headers, rfl, rfl, hfin⟩
      · have hinf : limits.infinite = true := by
          simp only [usage5h, usageWeekly] at htop
          simpa [KeyLimits.infinite] using htop
        simp only [he]
        exact .inr ⟨e, rfl, .inr ⟨hinf, trivial⟩⟩

/-- A call that does not get as far as the quota pre-check holds no slot when it ends: it raises, or
returns an access of the local key. -/
theorem authorizeToken_stops {g : Gateway} {req : AuthRequest} {ans : AuthAnswers}
    (h : g.reachesQuota req ans = false) :
    ((∃ e, (g.authorizeToken req ans).1 = .error e) ∨
        (g.authorizeToken req ans).1 = .ok { keyId := localKeyId, endpoint := req.endpoint }) ∧
      (g.authorizeToken req ans).2.settings = g.settings ∧
      (g.authorizeToken req ans).2.usage = g.usage ∧
      (g.authorizeToken req ans).2.limiter.maxConcurrent = g.limiter.maxConcurrent ∧
      (g.authorizeToken req ans).2.limiter.inflight = g.limiter.inflight := by
  simp only [authorizeToken, reachesQuota] at h ⊢
  cases hauth : g.authenticateToken req.token ans.verified with
  | error e => exact ⟨.inl ⟨e, rfl⟩, rfl, rfl, rfl, rfl⟩
  | ok keyId =>
    simp only [hauth] at h ⊢
    by_cases hloc : keyId = localKeyId
    · rw [if_pos hloc, hloc]
      exact ⟨.inr rfl, rfl, rfl, rfl, rfl⟩
    · simp only [hloc, if_false]
      cases hent : g.entitle ans.keyAccess req.model with
      | error e => exact ⟨.inl ⟨e, rfl⟩, rfl, rfl, rfl, rfl⟩
      | ok limits =>
        simp only [hent, ne_eq, hloc, not_false_eq_true, decide_true, Bool.true_and] at h ⊢
        cases hrate : (g.limiter.checkRate keyId ans.now limits.rate).1 with
        | false => simp
        | true =>
          rw [hrate, Bool.true_and] at h
          simp [h, Limiter.acquire_false h]

theorem authorizeToken_reaches {g : Gateway} {req : AuthRequest} {ans : AuthAnswers}
    (h : g.reachesQuota req ans = true) :
    ∃ keyId limits l, g.authenticateToken req.token ans.verified = .ok keyId ∧
      keyId ≠ localKeyId ∧ g.entitle ans.keyAccess req.model = .ok limits ∧
      l.maxConcurrent = g.limiter.maxConcurrent ∧
      (∀ k, l.inflight k = g.limiter.inflight k + if keyId = k then 1 else 0) ∧
      (0 < g.limiter.maxConcurrent → (l.inflight keyId : Int) ≤ g.limiter.maxConcurrent) ∧
      g.authorizeToken req ans = checkQuota { g with limiter := l }
        { keyId := keyId, endpoint := req.endpoint, slotHeld := true } limits req ans := by
  simp only [authorizeToken, reachesQuota] at h ⊢
  cases hauth : g.authenticateToken req.token ans.verified with
  | error e => simp [hauth] at h
  | ok keyId =>
    cases hent : g.entitle ans.keyAccess req.model with
    | error e => simp [hauth, hent] at h
    | ok limits =>
      simp only [hauth, hent, Bool.and_eq_true, decide_eq_true_eq] at h
      obtain ⟨⟨hloc, hrate⟩, hslot⟩ := h
      refine ⟨keyId, limits, ((g.limiter.checkRate keyId ans.now limits.rate).2.acquire keyId).2,
        rfl, hloc, rfl, by simp, fun k => ?_, fun hpos => ?_, ?_⟩
      · rw [Limiter.acquire_true hslot, Limiter.checkRate_inflight]
      · have := Limiter.acquire_le hslot (by simpa using hpos)
        simpa using this
      · simp [hloc, hrate, hslot]

/-- How a call of `authorize_token` ends, and the slots it leaves. -/
theorem authorizeToken_cases (g : Gateway) (req : AuthRequest) (ans : AuthAnswers) :
    (∃ a, (g.authorizeToken req ans).1 = .ok a ∧ a.finalized = false ∧
        a.slotHeld = (a.keyId != localKeyId) ∧ g.quotaRaises req ans = false ∧
        ∀ k, (g.authorizeToken req ans).2.limiter.inflight k = g.limiter.inflight k + a.slots k) ∨
    (∃ e, (g.authorizeToken req ans).1 = .error e ∧ g.quotaRaises req ans = false ∧
        ∀ k, (g.authorizeToken req ans).2.limiter.inflight k = g.limiter.inflight k) ∨
    (∃ e, (g.authorizeToken req ans).1 = .error e ∧ g.quotaRaises req ans = true ∧
        ∃ keyId, keyId ≠ localKeyId ∧ ∀ k, (g.authorizeToken req ans).2.limiter.inflight k =
          g.limiter.inflight k + if keyId = k then 1 else 0) := by
  cases hreach : g.reachesQuota req ans with
  | false =>
    have hno : g.quotaRaises req ans = false := by simp [quotaRaises, hreach]
    obtain ⟨⟨e, he⟩ | ha, -, -, -, hin⟩ := authorizeToken_stops hreach
    · exact .inr (.inl ⟨e, he, hno, fun k => by rw [hin]⟩)
    · refine .inl ⟨_, ha, rfl, by simp, hno, fun k => ?_⟩
      simp [hin, ApiAccess.slots, ApiAccess.holds]
  | true =>
    obtain ⟨keyId, limits, l, -, hloc, hent, -, hslot, -, heq⟩ := authorizeToken_reaches hreach
    have hraises : g.quotaRaises req ans = (ans.usageRaises || limits.infinite) := by
      simp [quotaRaises, hreach, hent, Except.toOption]
    let a : ApiAccess := { keyId := keyId, endpoint := req.endpoint, slotHeld := true }
    have hslots (k : String) : a.slots k = if keyId = k then 1 else 0 := by
      simp [a, ApiAccess.slots, ApiAccess.holds]
    rw [heq, hraises]
    rcases checkQuota_cases { g with limiter := l } a limits req ans with
      ⟨headers, hres, hg, hno⟩ | ⟨e, hres, ⟨hno, hg⟩ | ⟨hraise, hg⟩⟩
    · refine .inl ⟨_, hres, rfl, by simpa [a] using hloc, hno, fun k => ?_⟩
      show _ = g.limiter.inflight k + a.slots k
      rw [hg, hslots]
      exact hslot k
    · refine .inr (.inl ⟨e, hres, hno, fun k => ?_⟩)
      have hk := hslot k
      rw [hg, abort_inflight rfl, hslots]
      simp only [hk]
      omega
    · refine .inr (.inr ⟨e, hres, hraise, keyId, hloc, fun k => ?_⟩)
      rw [hg]
      exact hslot k

end Gateway
end InferenceEngine
