import InferenceEngine.Lib.Faults
import InferenceEngine.Lib.Json
import InferenceEngine.Billing.Store

/-!
# Billing.Stripe

`handle_event` of the Stripe adapter (`billing/stripe.py`): what one verified event does to the
billing store, call by call. An event is whatever JSON the body was, so every field may be missing
or of any type; what Python and SQLite make of it is modelled here: `.get` of something that is no
dict raises, `or {}` replaces what is false, and a bound value is stored as the text of its column
(`Render.bind`). The texts of floats and of `str(...)` are parameters.

`handleEvent` is a program of store calls (`StoreOp`); `StoreOp.exec` carries one out. A run of it
may be cut off or fail at every call (`Lib.Faults`).
-/

namespace Json

variable {F : Type}

/-- The string of these code units; there is none with a lone surrogate. -/
def Text.toString? (t : Text) : Option String :=
  (t.codePoints.mapM fun c : Nat => if c.isValidChar then some
    (Char.ofNat c) else none).map String.ofList

/-- `v == s` for a string `s`. -/
def Value.isText (s : String) : Value F → Bool
  | .str t => t = Text.ofString s
  | _ => false

/-- The items of a dict. -/
abbrev Items (F : Type) := List (Text × Value F)

/-- `.get(key, default)`. -/
def Items.get (items : Items F) (key : String) (default : Value F := .null) : Value F :=
  (items.lookup (Text.ofString key)).getD default

/-- JSON proper has no NaN, which Python reads all the same; an infinity is what it reads for
`1e999`. -/
inductive Value.Standard : Value F → Prop where
  | null : Standard .null
  | bool (b : Bool) : Standard (.bool b)
  | int (n : Int) : Standard (.int n)
  | float (x : F) : Standard (.float x)
  | infinity (neg : Bool) : Standard (.infinity neg)
  | str (s : Text) : Standard (.str s)
  | arr {vs : List (Value F)} (h : ∀ v ∈ vs, Standard v) : Standard (.arr vs)
  | obj {items : Items F} (h : ∀ p ∈ items, Standard p.2) : Standard (.obj items)

theorem Items.get_standard {items : Items F} (h : ∀ p ∈ items, p.2.Standard) (key : String)
    {default : Value F} (hd : default.Standard) : (items.get key default).Standard := by
  unfold Items.get
  cases hl : items.lookup (Text.ofString key) with
  | none => exact hd
  | some v =>
    obtain ⟨l₁, l₂, rfl, -⟩ := List.lookup_eq_some_iff.mp hl
    exact h (Text.ofString key, v) (by simp)

end Json

namespace InferenceEngine

open Effect Json

/-- `PROVIDER`. -/
def provider : String := "stripe"

/-- What SQLite is given for a Python value: NULL or a text, unless the value cannot be bound. -/
abbrev Bound := Except Exc (Option String)

structure Render (F : Type) where
  /-- `x == 0.0` -/
  isZero : F → Bool
  /-- the text of a float in a column of type `TEXT` -/
  real : F → String
  /-- `str(v)` of what is no string -/
  str : Value F → String

namespace Render

variable {F : Type}

/-- `bool(v)`. -/
def truthy (r : Render F) : Value F → Bool
  | .null => false
  | .bool b => b
  | .int n => n ≠ 0
  | .float x => !r.isZero x
  | .nan | .infinity _ => true
  | .str t => !t.isEmpty
  | .arr vs => !vs.isEmpty
  | .obj items => !items.isEmpty

/-- A value as a parameter of a statement. SQLite takes a NaN for NULL. -/
def bind (r : Render F) : Value F → Bound
  | .null | .nan => .ok none
  | .bool b => .ok (some (if b then "1" else "0"))
  | .int n =>
    if -2 ^ 63 ≤ n ∧ n < 2 ^ 63 then .ok (some (toString n))
    else .error (.other "Python int too large to convert to SQLite INTEGER")
  | .float x => .ok (some (r.real x))
  | .infinity neg => .ok (some (if neg then "-Inf" else "Inf"))
  | .str t =>
    match t.toString? with
    | some s => .ok (some s)
    | none => .error (.other "surrogates not allowed")
  | .arr _ => .error (.other "type 'list' is not supported")
  | .obj _ => .error (.other "type 'dict' is not supported")

/-- `v or {}`, as a dict: `.get` of anything else raises an `AttributeError`. -/
def dictOrEmpty (r : Render F) (v : Value F) : Except Exc (Items F) :=
  if !r.truthy v then .ok []
  else
    match v with
    | .obj items => .ok items
    | _ => .error (.other "object has no attribute 'get'")

end Render

/-! ## Calls of the store -/

inductive StoreOp where
  | getClientByExternalRef (externalRef : Bound)
  | createClient (id : String) (externalRef email : Bound)
  | getPlan (planId : Bound)
  | upsertSubscription (id : Bound) (clientId : String) (planId : Bound) (provider : String)
      (providerSubId status currentPeriodEnd : Bound)
  | setClientStatus (clientId : String) (status : ClientStatus)
  | getSubscriptionByProvider (provider : String) (providerSubId : Bound)
  | revokeClientKeys (clientId : String)

namespace StoreOp

abbrev Res : StoreOp → Type
  | getClientByExternalRef _ => Option Client
  | createClient .. => Client
  | getPlan _ => Option Plan
  | upsertSubscription .. => Unit
  | setClientStatus .. => Bool
  | getSubscriptionByProvider .. => Option Subscription
  | revokeClientKeys _ => Nat

/-- A statement is executed once its parameters are bound; one that raises changes nothing. -/
def statement {α : Type} (db : Db) (run : Except Exc (α × Db)) : Except Exc α × Db :=
  match run with
  | .ok (a, db') => (.ok a, db')
  | .error e => (.error e, db)

def exec (now : ℚ) (db : Db) : (op : StoreOp) → Except Exc op.Res × Db
  | getClientByExternalRef externalRef =>
    statement db do
      let externalRef ← externalRef
      return (db.getClientByExternalRef externalRef, db)
  | createClient id externalRef email =>
    statement db do
      let externalRef ← externalRef
      let email ← email
      db.createClient id externalRef email
  | getPlan planId =>
    statement db do
      let planId ← planId
      return (db.getPlan planId, db)
  | upsertSubscription id clientId planId provider providerSubId status currentPeriodEnd =>
    statement db do
      let id ← id
      let planId ← planId
      let providerSubId ← providerSubId
      let status ← status
      let currentPeriodEnd ← currentPeriodEnd
      let db' ← db.upsertSubscription id clientId planId provider providerSubId status
        currentPeriodEnd now
      return ((), db')
  | setClientStatus clientId status =>
    (.ok (db.clients.any (·.id = clientId)), db.setClientStatus clientId status)
  | getSubscriptionByProvider provider providerSubId =>
    statement db do
      let providerSubId ← providerSubId
      return (db.getSubscriptionByProvider provider providerSubId, db)
  | revokeClientKeys clientId =>
    (.ok (db.keys.countP fun k => k.clientId = some clientId && k.revokedAt.isNone),
      db.revokeClientKeys clientId now)

end StoreOp

/-- A program of store calls. -/
abbrev Billing (α : Type) := Prog StoreOp StoreOp.Res Exc α

/-! ## Lifecycle events -/

inductive LifecycleAction where
  | activated
  | planChanged
  | suspended
  | canceled
  | ignored
  deriving DecidableEq, Repr

structure LifecycleResult where
  action : LifecycleAction
  clientId : Option String := none
  deriving DecidableEq, Repr

variable {F : Type}

/-- `_ensure_client`; `uuid` is what `uuid.uuid4().hex` gives. -/
def ensureClient (uuid : String) (customerRef email : Bound) : Billing String := do
  let client ← Prog.call (StoreOp.getClientByExternalRef customerRef)
  match client with
  | some client => return client.id
  | none =>
    let client ← Prog.call (StoreOp.createClient uuid customerRef email)
    return client.id

/-- `_resolve_plan_id`. -/
def resolvePlanId (r : Render F) (obj : Items F) : Billing Bound := do
  let metadata ← Prog.ofExcept (r.dictOrEmpty (obj.get "metadata"))
  let candidate := metadata.get "plan"
  if !r.truthy candidate then return .ok none
  else
    let plan ← Prog.call (StoreOp.getPlan (r.bind candidate))
    return if plan.isSome then r.bind candidate else .ok none

/-- `_period_end`. -/
def periodEnd (r : Render F) (obj : Items F) : Bound :=
  match obj.get "current_period_end" with
  | .null => .ok none
  | .str t => r.bind (.str t)
  | v => .ok (some (r.str v))

/-- `sub_status in _ACTIVE_SUB_STATES`: a list or a dict has no hash. -/
def isActiveState : Value F → Except Exc Bool
  | .arr _ | .obj _ => .error (.other "unhashable type")
  | v => .ok (v.isText "active" || v.isText "trialing")

/-- The subscription of a client that is there. -/
def setSubscription (r : Render F) (obj : Items F) (clientId : String) :
    Billing LifecycleResult := do
  let subId := obj.get "id"
  let subStatus := obj.get "status" (.str [])
  let planId ← resolvePlanId r obj
  let active ← Prog.ofExcept (isActiveState subStatus)
  let _ ← Prog.call (StoreOp.upsertSubscription (r.bind subId) clientId planId provider
    (r.bind subId) (if active then .ok (some "active") else r.bind subStatus) (periodEnd r obj))
  if active then
    let _ ← Prog.call (StoreOp.setClientStatus clientId .active)
    return { action := .activated, clientId := some clientId }
  else return { action := .planChanged, clientId := some clientId }

/-- `customer.subscription.created` and `updated`. -/
def subscriptionChanged (r : Render F) (uuid : String) (obj : Items F) : Billing LifecycleResult :=
  let customerRef := obj.get "customer"
  let subId := obj.get "id"
  if !r.truthy customerRef || !r.truthy subId then return { action := .ignored }
  else do
    let clientId ← ensureClient uuid (r.bind customerRef) (r.bind (obj.get "email"))
    setSubscription r obj clientId

/-- `invoice.payment_failed`. -/
def paymentFailed (r : Render F) (obj : Items F) : Billing LifecycleResult :=
  let customerRef := obj.get "customer"
  if !r.truthy customerRef then return { action := .ignored }
  else do
    let client ← Prog.call (StoreOp.getClientByExternalRef (r.bind customerRef))
    match client with
    | none => return { action := .ignored }
    | some client =>
      let _ ← Prog.call (StoreOp.setClientStatus client.id .suspended)
      return { action := .suspended, clientId := some client.id }

/-- The client and its keys, once its subscription is canceled. -/
def cancelClient (clientId : String) : Billing LifecycleResult := do
  let _ ← Prog.call (StoreOp.setClientStatus clientId .canceled)
  let _ ← Prog.call (StoreOp.revokeClientKeys clientId)
  return { action := .canceled, clientId := some clientId }

/-- `customer.subscription.deleted`. -/
def subscriptionDeleted (r : Render F) (obj : Items F) : Billing LifecycleResult :=
  let customerRef := obj.get "customer"
  let subId := obj.get "id"
  if !r.truthy customerRef then return { action := .ignored }
  else do
    let client ← Prog.call (StoreOp.getClientByExternalRef (r.bind customerRef))
    match client with
    | none => return { action := .ignored }
    | some client =>
      if r.truthy subId then
        let existing ← Prog.call (StoreOp.getSubscriptionByProvider provider (r.bind subId))
        let _ ← Prog.call (StoreOp.upsertSubscription (r.bind subId) client.id
          (.ok (existing.bind (·.planId))) provider (r.bind subId) (.ok (some "canceled"))
          (periodEnd r obj))
        cancelClient client.id
      else cancelClient client.id

inductive EventKind where
  | subscription
  | paymentFailed
  | deleted
  | other
  deriving DecidableEq, Repr

def eventKind (eventType : Value F) : EventKind :=
  if eventType.isText "customer.subscription.created" ||
      eventType.isText "customer.subscription.updated" then .subscription
  else if eventType.isText "invoice.payment_failed" then .paymentFailed
  else if eventType.isText "customer.subscription.deleted" then .deleted
  else .other

/-- `event_type` and `obj = (event.get("data") or {}).get("object") or {}`. Every branch begins with
an `obj.get`, so `obj` is a dict in it. -/
def eventTarget (r : Render F) (event : Items F) : Except Exc (EventKind × Items F) := do
  let data ← r.dictOrEmpty (event.get "data")
  match eventKind (event.get "type" (.str [])) with
  | .other => return (.other, [])
  | kind =>
    let obj ← r.dictOrEmpty (data.get "object")
    return (kind, obj)

/-- An event of Stripe: JSON proper. -/
structure StripeEvent (F : Type) where
  items : Items F
  standard : ∀ p ∈ items, p.2.Standard

def handleEvent (r : Render F) (uuid : String) (event : Items F) : Billing LifecycleResult := do
  let (kind, obj) ← Prog.ofExcept (eventTarget r event)
  match kind with
  | .subscription => subscriptionChanged r uuid obj
  | .paymentFailed => paymentFailed r obj
  | .deleted => subscriptionDeleted r obj
  -- unknown types are a success, so that Stripe does not deliver them again
  | .other => return { action := .ignored }

/-! ## JSON proper -/

variable {r : Render F}

theorem dictOrEmpty_standard {v : Value F} {items : Items F} (hv : v.Standard)
    (h : r.dictOrEmpty v = .ok items) : ∀ p ∈ items, p.2.Standard := by
  unfold Render.dictOrEmpty at h
  split at h
  · cases h
    simp
  · cases hv with
    | obj hitems =>
      cases h
      exact hitems
    | _ => cases h

theorem eventTarget_standard {event : StripeEvent F} {kind : EventKind} {obj : Items F}
    (h : eventTarget r event.items = .ok (kind, obj)) : ∀ p ∈ obj, p.2.Standard := by
  unfold eventTarget at h
  cases hdata : r.dictOrEmpty (event.items.get "data") with
  | error e => rw [hdata] at h; cases h
  | ok data =>
    rw [hdata] at h
    have hd := dictOrEmpty_standard (Items.get_standard event.standard "data" .null) hdata
    simp only [bind, Except.bind] at h
    split at h
    · cases h
      simp
    · cases hobj : r.dictOrEmpty (data.get "object") with
      | error e => rw [hobj] at h; cases h
      | ok obj =>
        rw [hobj] at h
        cases h
        exact dictOrEmpty_standard (Items.get_standard hd "object" .null) hobj

/-- Of JSON proper, only what is false is stored as NULL. -/
theorem bind_ne_null {v : Value F} (hv : v.Standard) (ht : r.truthy v = true) :
    r.bind v ≠ .ok none := by
  intro h
  cases hv with
  | null => cases ht
  | int n =>
    unfold Render.bind at h
    dsimp only at h
    split at h <;> cases h
  | str t =>
    unfold Render.bind at h
    dsimp only at h
    split at h <;> cases h
  | _ => cases h

/-- An event with texts in its object. -/
def StripeEvent.ofTexts (id eventType : String) (object : List (String × String)) :
    StripeEvent F where
  items :=
    [(Text.ofString "id", .str (Text.ofString id)),
      (Text.ofString "type", .str (Text.ofString eventType)),
      (Text.ofString "data",
        .obj [(Text.ofString "object",
          .obj (object.map fun p => (Text.ofString p.1, .str (Text.ofString p.2))))])]
  standard := by
    have hobj : Value.Standard (F := F)
        (.obj (object.map fun p => (Text.ofString p.1, .str (Text.ofString p.2)))) := by
      refine .obj fun p hp => ?_
      obtain ⟨q, -, rfl⟩ := List.mem_map.mp hp
      exact .str _
    intro p hp
    simp only [List.mem_cons, List.not_mem_nil, or_false] at hp
    obtain rfl | rfl | rfl := hp
    · exact .str _
    · exact .str _
    · refine .obj fun q hq => ?_
      rw [List.mem_singleton.mp hq]
      exact hobj

/-- Without floats. -/
def Render.plain : Render Empty where
  isZero := nofun
  real := nofun
  str v :=
    match v with
    | .int n => toString n
    | .bool true => "True"
    | _ => "False"

end InferenceEngine
