import InferenceEngine.Gateway.Authorize

/-!
# Gateway.Binding

The bind addresses of an engine (`config.py`) and the keys its edges ask for. `_validate_binding`
guards the HTTP address and `_validate_grpc` the gRPC one; whether a key is asked for is decided
once for both edges, by `effective_require_auth`, which reads the HTTP address. The validators of
`Settings` that are left out read none of these fields.

`keyRequired_iff` says when the two agree: a gRPC edge on the network beside an HTTP edge on
loopback is accepted with no authentication at all.
-/

namespace InferenceEngine

structure BindSettings where
  host : String := "127.0.0.1"
  allowNetworkBind : Bool := false
  allowInsecureBind : Bool := false
  grpcEnabled : Bool := false
  grpcHost : String := "127.0.0.1"
  grpcTlsCert : Option String := none
  grpcTlsKey : Option String := none
  /-- `None` is "auto" -/
  requireAuth : Option Bool := none
  deriving DecidableEq

def isLoopback (host : String) : Bool := ["127.0.0.1", "::1", "localhost"].contains host

namespace BindSettings

def isLoopbackHost (s : BindSettings) : Bool := isLoopback s.host

def effectiveRequireAuth (s : BindSettings) : Bool := s.requireAuth.getD !s.isLoopbackHost

def validateBinding (s : BindSettings) : Except String BindSettings :=
  if !s.isLoopbackHost then
    if !s.allowNetworkBind then
      .error ("refusing to bind to non-loopback host " ++ Py.repr s.host ++
        " without an explicit choice; " ++
        "set allow_network_bind=true (IE_ALLOW_NETWORK_BIND) and review the TLS/reverse-proxy " ++
        "guidance in the README")
    else if !s.effectiveRequireAuth && !s.allowInsecureBind then
      .error ("refusing to bind to non-loopback host " ++ Py.repr s.host ++
        " with auth disabled; " ++
        "enable require_auth or set allow_insecure_bind=true to acknowledge the risk")
    else .ok s
  else .ok s

/-- `_validate_grpc`: it does not look at `effective_require_auth`. -/
def validateGrpc (s : BindSettings) : Except String BindSettings :=
  if !s.grpcEnabled then .ok s
  else if s.grpcTlsCert.isNone != s.grpcTlsKey.isNone then
    .error "grpc_tls_cert and grpc_tls_key must be set together"
  else if !isLoopback s.grpcHost && !s.allowNetworkBind then
    .error ("refusing to bind gRPC to non-loopback host " ++ Py.repr s.grpcHost ++ " without " ++
      "allow_network_bind=true; review the TLS guidance in docs/grpc.md")
  else .ok s

def validate (s : BindSettings) : Except String BindSettings :=
  s.validateBinding.bind validateGrpc

def edges (s : BindSettings) : List String :=
  s.host :: if s.grpcEnabled then [s.grpcHost] else []

/-- A request without a token, or with one that no key has, is refused with a 401 by the gateway
that both edges share. -/
def KeyRequired (s : BindSettings) : Prop :=
  ∀ (g : Gateway) (req : AuthRequest) (ans : AuthAnswers),
    g.settings.requireAuth = s.effectiveRequireAuth →
    req.token.isNone ∨ req.token = some "" ∨ ans.verified = .ok none →
    ∃ e, (g.authorizeToken req ans).1 = .error (.edge e) ∧ e.statusCode = 401

/-- Every edge on a network address asks for a key, unless the risk is acknowledged. -/
def NetworkEdgesKeyed (s : BindSettings) : Prop :=
  ∀ address ∈ s.edges, isLoopback address = false → s.allowInsecureBind = false → s.KeyRequired

variable {s : BindSettings}

theorem validate_ok (h : s.validate = .ok s) :
    s.validateBinding = .ok s ∧ s.validateGrpc = .ok s := by
  have hb : s.validateBinding = .ok s ∨ ∃ e, s.validateBinding = .error e := by
    simp only [validateBinding]
    split
    · split
      · exact .inr ⟨_, rfl⟩
      · split
        · exact .inr ⟨_, rfl⟩
        · exact .inl rfl
    · exact .inl rfl
  rcases hb with hb | ⟨e, hb⟩
  · refine ⟨hb, ?_⟩
    simpa only [validate, hb, Except.bind] using h
  · simp [validate, hb, Except.bind] at h

theorem effectiveRequireAuth_of_validateBinding (h : s.validateBinding = .ok s)
    (hhost : s.isLoopbackHost = false) (hsafe : s.allowInsecureBind = false) :
    s.effectiveRequireAuth = true := by
  simp only [validateBinding, hhost, hsafe] at h
  cases hauth : s.effectiveRequireAuth with
  | true => rfl
  | false =>
    cases hnet : s.allowNetworkBind with
    | true => simp [hauth, hnet] at h
    | false => simp [hnet] at h

theorem effectiveRequireAuth_loopback (hhost : s.isLoopbackHost = true) :
    s.effectiveRequireAuth = true ↔ s.requireAuth = some true := by
  rcases s with ⟨_, _, _, _, _, _, _, _ | _ | _⟩ <;> simp_all [effectiveRequireAuth]

theorem keyRequired_iff_effective : s.KeyRequired ↔ s.effectiveRequireAuth = true := by
  constructor
  · intro h
    let settings : GatewaySettings :=
      { requireAuth := s.effectiveRequireAuth, quota5hCu := 0, quotaWeeklyCu := 0,
        rateLimitPerMin := 0, maxConcurrentPerKey := 0 }
    let req : AuthRequest :=
      { token := none, promptText := [], maxTokens := 0, endpoint := "", model := none }
    obtain ⟨e, herr, -⟩ := h (.init settings) req { verified := .ok none, now := 0 } rfl (.inl rfl)
    by_contra hoff
    have hoff : s.effectiveRequireAuth = false := by simpa using hoff
    simp [Gateway.authorizeToken, Gateway.authenticateToken, Gateway.init, settings,
      req, hoff] at herr
  · intro hon g req ans hg htoken
    rw [hon] at hg
    by_cases hmissing : req.token.isNone ∨ req.token = some ""
    · refine ⟨{ message := "missing API key", statusCode := 401, code := "missing_api_key" }, ?_,
        rfl⟩
      simp only [Gateway.authorizeToken, Gateway.authenticateToken, if_pos hmissing, hg, if_true]
    · have hunknown : ans.verified = .ok none := by tauto
      refine ⟨{ message := "invalid API key", statusCode := 401, code := "invalid_api_key" }, ?_,
        rfl⟩
      simp only [Gateway.authorizeToken, Gateway.authenticateToken, if_neg hmissing,
        hunknown, hg, if_true]

/-- The accepted configurations whose network edges ask for a key: all but those with HTTP on
loopback and gRPC on the network where authentication is not asked for explicitly. -/
theorem keyRequired_iff (h : s.validate = .ok s) :
    s.NetworkEdgesKeyed ↔
      (s.isLoopbackHost = false ∨ s.requireAuth = some true ∨ s.grpcEnabled = false ∨
        isLoopback s.grpcHost = true ∨ s.allowInsecureBind = true) := by
  obtain ⟨hbind, -⟩ := validate_ok h
  constructor
  · intro hkeyed
    by_contra hbad
    simp only [not_or, Bool.not_eq_false, Bool.not_eq_true] at hbad
    obtain ⟨hhost, hauth, hgrpc, hnet, hsafe⟩ := hbad
    have hedge : s.grpcHost ∈ s.edges := by simp [edges, hgrpc]
    have hreq := keyRequired_iff_effective.mp (hkeyed s.grpcHost hedge hnet hsafe)
    exact hauth ((effectiveRequireAuth_loopback hhost).mp hreq)
  · intro hgood address hmem hnet hsafe
    refine keyRequired_iff_effective.mpr ?_
    cases hhost : s.isLoopbackHost with
    | false => exact effectiveRequireAuth_of_validateBinding hbind hhost hsafe
    | true =>
      refine (effectiveRequireAuth_loopback hhost).mpr ?_
      -- HTTP is on loopback, so the edge on the network is the gRPC one
      have hgrpc : s.grpcEnabled = true ∧ address = s.grpcHost := by
        cases hg : s.grpcEnabled with
        | false =>
          have haddr : address = s.host := by simpa [edges, hg] using hmem
          rw [haddr] at hnet
          exact absurd (hnet.symm.trans hhost) (by decide)
        | true =>
          rcases (by simpa [edges, hg] using hmem : address = s.host ∨ address = s.grpcHost) with
            haddr | haddr
          · rw [haddr] at hnet
            exact absurd (hnet.symm.trans hhost) (by decide)
          · exact ⟨rfl, haddr⟩
      rw [hgrpc.2] at hnet
      simpa [hhost, hgrpc.1, hnet, hsafe] using hgood

theorem keyRequired_iff_network :
    ({ host := "0.0.0.0", allowNetworkBind := true, grpcEnabled := true, grpcHost := "0.0.0.0" } :
      BindSettings).NetworkEdgesKeyed :=
  (keyRequired_iff (by decide)).mpr (.inl (by decide))

def grpcOnNetwork : BindSettings :=
  { allowNetworkBind := true, grpcEnabled := true, grpcHost := "0.0.0.0" }

/-- It is accepted, and a request without a key is let in as the local one. -/
theorem grpcOnNetwork_keyless :
    grpcOnNetwork.validate = .ok grpcOnNetwork ∧ "0.0.0.0" ∈ grpcOnNetwork.edges ∧
      isLoopback "0.0.0.0" = false ∧ grpcOnNetwork.allowInsecureBind = false ∧
      ¬grpcOnNetwork.NetworkEdgesKeyed := by
  refine ⟨by decide, by decide, by decide, by decide, fun hkeyed => ?_⟩
  have hreq := keyRequired_iff_effective.mp (hkeyed "0.0.0.0" (by decide) (by decide) (by decide))
  exact absurd hreq (by decide)

end BindSettings
end InferenceEngine
