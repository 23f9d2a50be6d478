import InferenceEngine.Lib.Run
import InferenceEngine.Billing.StripeRetry

/-!
# Billing.Webhook

The route that Stripe delivers its events to (`stripe_webhook` of `api/billing_router.py`), from the
verified event on. The id of the event is recorded before the event is handled, and forgotten if
`handle_event` raises, so that Stripe may deliver it again; a delivery that finds the id recorded is
answered as a duplicate.

A `StripeDelivery` says what becomes of each store call: it is carried out, it raises, or the
process crashes before it. The state records beside the store what the deliveries have come to: the
result of `handle_event`, the calls of the emitter, and whether Stripe was given a 2xx answer.

* `answered_iff_guarded`: an answered event is done, whatever the next delivery, in a run of
  deliveries exactly when the ones that take it on get through the compensation or the emission
  (`Keeps`).
-/

namespace InferenceEngine

open Effect Json Lts

/-- `_LIFECYCLE_EVENT_TYPES`. -/
def lifecycleEventType : LifecycleAction → Option String
  | .activated => some "subscription.activated"
  | .planChanged => some "subscription.updated"
  | .suspended => some "subscription.suspended"
  | .canceled => some "subscription.canceled"
  | .ignored => none

def LifecycleAction.value : LifecycleAction → String
  | .activated => "activated"
  | .planChanged => "plan_changed"
  | .suspended => "suspended"
  | .canceled => "canceled"
  | .ignored => "ignored"

structure Emission where
  clientId : String
  eventType : String
  action : LifecycleAction
  eventId : String
  deriving DecidableEq, Repr

/-- `_emit_lifecycle`: what is emitted for a result, if it is a lifecycle change. The emitter itself
never raises. -/
def emission (sourceEventId : String) (result : LifecycleResult) : Option Emission :=
  match result.clientId, lifecycleEventType result.action with
  | some clientId, some eventType =>
    some
      { clientId := clientId, eventType := eventType, action := result.action,
        eventId := sourceEventId ++ "." ++ result.action.value }
  | _, _ => none

inductive Reply where
  | duplicate
  | processed (action : LifecycleAction)
  | invalidPayload
  | processingError
  /-- an exception that the route lets through -/
  | internalError
  deriving DecidableEq, Repr

def Reply.statusCode : Reply → Nat
  | duplicate | processed _ => 200
  | invalidPayload => 400
  | processingError | internalError => 500

/-- The id of an event: a string that is not empty. -/
def webhookEventId {F : Type} (event : StripeEvent F) : Option Text :=
  match event.items.get "id" with
  | .str t => if t.isEmpty then none else some t
  | _ => none

/-- What becomes of the calls of one delivery; where there is no fate, the process crashes. -/
structure StripeDelivery where
  uuid : String
  record : Option (Fate ℚ Exc)
  handle : List (Fate ℚ Exc)
  forget : Option (Fate ℚ Exc)
  mark : Option (Fate ℚ Exc)
  /-- does the process get as far as the emitter? -/
  emits : Bool

structure WebhookState where
  db : Db
  /-- the result of `handle_event`, once it has returned -/
  applied : Option LifecycleResult := none
  emitted : List Emission := []
  /-- Stripe was given a 2xx answer -/
  answered : Bool := false

namespace WebhookState

/-- What follows `handle_event`. -/
def conclude (s : WebhookState) (eventId : String) (l : StripeDelivery)
    (ran : Effect.Ended Db ℚ Exc LifecycleResult) : Option Reply × WebhookState :=
  match ran.value with
  | none => (none, { s with db := ran.state })
  | some (.error e) =>
    if !e.isException then (none, { s with db := ran.state })
    else
      match l.forget with
      | none => (none, { s with db := ran.state })
      | some (.raises _) => (some .internalError, { s with db := ran.state })
      | some (.ok _) =>
        (some .processingError, { s with db := ran.state.forgetEvent provider eventId })
  | some (.ok result) =>
    match l.mark with
    | none => (none, { s with db := ran.state, applied := some result })
    | some (.raises _) => (some .internalError, { s with db := ran.state, applied := some result })
    | some (.ok _) =>
      let db := ran.state.markEventProcessed provider eventId result.action.value
      match emission eventId result with
      | none => (some (.processed result.action), { s with db := db, applied := some result })
      | some e =>
        if l.emits then
          (some (.processed result.action),
            { s with db := db, applied := some result, emitted := s.emitted ++ [e] })
        else (none, { s with db := db, applied := some result })

/-- `stripe_webhook`, from the parsed event on. -/
def deliver {F : Type} (r : Render F) (event : StripeEvent F) (s : WebhookState)
    (l : StripeDelivery) :
    Option Reply × WebhookState :=
  match webhookEventId event with
  | none => (some .invalidPayload, s)
  | some t =>
    match l.record with
    | none => (none, s)
    | some (.raises _) => (some .internalError, s)
    | some (.ok _) =>
      match r.bind (.str t), r.bind (event.items.get "type") with
      | .ok (some eventId), .ok eventType =>
        let recorded := s.db.recordEventOnce provider eventId eventType
        if !recorded.1 then (some .duplicate, s)
        else s.conclude eventId l (runEvent r event l.uuid l.handle recorded.2)
      | _, _ => (some .internalError, s)

/-- An answer below 300 tells Stripe not to deliver again. -/
def answer (delivered : Option Reply × WebhookState) : WebhookState :=
  { delivered.2 with
    answered := delivered.2.answered || delivered.1.any fun reply => reply.statusCode < 300 }

/-- One delivery. -/
def step {F : Type} (r : Render F) (event : StripeEvent F) (s : WebhookState) (l : StripeDelivery) :
    Option WebhookState :=
  some (answer (s.deliver r event l))

end WebhookState

/-! ## Recorded and done -/

section

variable {F : Type} (r : Render F) (event : StripeEvent F)

/-- The id and the type of an event as they are stored, if they can be. -/
def eventKey : Option (String × Option String) :=
  (webhookEventId event).bind fun t =>
    match r.bind (.str t), r.bind (event.items.get "type") with
    | .ok (some eventId), .ok eventType => some (eventId, eventType)
    | _, _ => none

namespace WebhookState

/-- The event has its row in `webhook_events`. -/
def Recorded (s : WebhookState) : Prop :=
  ∃ eventId eventType, eventKey r event = some (eventId, eventType) ∧
    s.db.webhookEvents.any (Db.isEvent provider eventId) = true

/-- The event has had its effect, and its lifecycle change was emitted. -/
def Done (s : WebhookState) : Prop :=
  ∃ eventId eventType result, eventKey r event = some (eventId, eventType) ∧
    s.applied = some result ∧ ∀ e ∈ emission eventId result, e ∈ s.emitted

/-- A delivery that takes the event on gets through: the process does not crash in `handle_event`;
if that raises, the event is forgotten; if it returns a lifecycle change, the event is marked and
the change is emitted. -/
def Keeps (s : WebhookState) (l : StripeDelivery) : Prop :=
  ∀ eventId eventType now, eventKey r event = some (eventId, eventType) →
    l.record = some (.ok now) →
    s.db.webhookEvents.any (Db.isEvent provider eventId) = false →
    match (runEvent r event l.uuid l.handle
      (s.db.recordEventOnce provider eventId eventType).2).value with
    | none => False
    | some (.error e) => e.isException = true ∧ ∃ now, l.forget = some (.ok now)
    | some (.ok result) =>
      emission eventId result = none ∨ (∃ now, l.mark = some (.ok now)) ∧ l.emits = true

/-- Before the event has its row, nothing has come of it. -/
def Fresh (s : WebhookState) : Prop :=
  s.Recorded r event ∨ s.applied = none ∧ s.emitted = [] ∧ s.answered = false

end WebhookState

end

namespace WebhookState

variable {F : Type} {r : Render F} {event : StripeEvent F} {s s' : WebhookState}
  {l : StripeDelivery}

theorem runEvent_webhookEvents (uuid : String) (fs : List (Fate ℚ Exc)) (db : Db) :
    (runEvent r event uuid fs db).state.webhookEvents = db.webhookEvents := by
  obtain hstate | ⟨kind, obj, clientId, db₁, ws, -, hloc, hstate, -⟩ :=
    runEvent_stage r event uuid fs db
  · rw [hstate]
  · rw [hstate, made_frame (·.webhookEvents) (fun w _ _ => by cases w <;> rfl)]
    obtain ⟨_, -, -, rfl⟩ | ⟨-, -, -, -, _, _, _, -, -, -, hcreate⟩ := locate_cases hloc
    · rfl
    · rw [(Db.createClient_ok hcreate).2.2.2]

theorem deliver_cases (r : Render F) (event : StripeEvent F) (s : WebhookState)
    (l : StripeDelivery) : (eventKey r event = none ∨ ∀ now, l.record ≠ some (.ok now)) ∧
      (∃ reply, s.deliver r event l = (reply, s) ∧
      reply.any (fun x => x.statusCode < 300) = false) ∨
    s.Recorded r event ∧ s.deliver r event l = (some .duplicate, s) ∨
    ∃ eventId eventType now, eventKey r event = some (eventId, eventType) ∧
      l.record = some (.ok now) ∧
      s.db.webhookEvents.any (Db.isEvent provider eventId) = false ∧
      s.deliver r event l = s.conclude eventId l (runEvent r event l.uuid l.handle
        (s.db.recordEventOnce provider eventId eventType).2) := by
  unfold deliver Recorded eventKey
  cases webhookEventId event with
  | none => exact .inl ⟨.inl rfl, _, rfl, rfl⟩
  | some t =>
    cases hrecord : l.record with
    | none => exact .inl ⟨.inr (fun _ h => by cases h), _, rfl, rfl⟩
    | some fate =>
      cases fate with
      | raises e => exact .inl ⟨.inr (fun _ h => by cases h), _, rfl, rfl⟩
      | ok now =>
        dsimp only [Option.bind_some]
        split
        · rename_i eventId eventType h₁ h₂
          cases hany : s.db.webhookEvents.any (Db.isEvent provider eventId) with
          | true =>
            refine .inr (.inl ⟨⟨eventId, eventType, rfl, hany⟩, ?_⟩)
            simp [Db.recordEventOnce, hany]
          | false =>
            refine .inr (.inr ⟨eventId, eventType, now, rfl, rfl, hany, ?_⟩)
            simp [Db.recordEventOnce, hany]
        · exact .inl ⟨.inl rfl, _, rfl, rfl⟩

theorem any_forgetEvent (db : Db) (eventId : String) :
    (db.forgetEvent provider eventId).webhookEvents.any (Db.isEvent provider eventId) = false := by
  simp [Db.forgetEvent]

theorem any_markEventProcessed (db : Db) (eventId result : String) :
    (db.markEventProcessed provider eventId result).webhookEvents.any
      (Db.isEvent provider eventId) =
      db.webhookEvents.any (Db.isEvent provider eventId) := Table.any_update fun _ _ => rfl

/-- A state in which the event has its row is done exactly when it was applied and emitted. -/
theorem recorded_imp_done_iff {eventId : String} {eventType : Option String}
    (hkey : eventKey r event = some (eventId, eventType))
    (hrow : s.db.webhookEvents.any (Db.isEvent provider eventId) = true) :
    (s.Recorded r event → s.Done r event) ↔
      ∃ result, s.applied = some result ∧ ∀ e ∈ emission eventId result, e ∈ s.emitted := by
  constructor
  · intro h
    obtain ⟨eventId', eventType', result, hkey', happ, hem⟩ := h ⟨eventId, eventType, hkey, hrow⟩
    rw [hkey] at hkey'
    cases hkey'
    exact ⟨result, happ, hem⟩
  · rintro ⟨result, happ, hem⟩ -
    exact ⟨eventId, eventType, result, hkey, happ, hem⟩

theorem not_recorded {eventId : String} {eventType : Option String}
    (hkey : eventKey r event = some (eventId, eventType))
    (hrow : s.db.webhookEvents.any (Db.isEvent provider eventId) = false) :
    ¬ s.Recorded r event := by
  rintro ⟨eventId', eventType', hkey', hrow'⟩
  rw [hkey] at hkey'
  cases hkey'
  rw [hrow] at hrow'
  cases hrow'

section Conclude

variable {eventId : String} {eventType : Option String} {result : LifecycleResult}
  {ran : Effect.Ended Db ℚ Exc LifecycleResult}

theorem lost (hkey : eventKey r event = some (eventId, eventType))
    (hrow : s.db.webhookEvents.any (Db.isEvent provider eventId) = true) (happ : s.applied = none) :
    s.Fresh r event ∧ ((s.Recorded r event → s.Done r event) ↔ False) := by
  refine ⟨.inl ⟨eventId, eventType, hkey, hrow⟩, ?_⟩
  rw [recorded_imp_done_iff hkey hrow]
  simp [happ]

/-- Applied: it remains to emit. -/
theorem applied_done_iff (hkey : eventKey r event = some (eventId, eventType))
    (hrow : s.db.webhookEvents.any (Db.isEvent provider eventId) = true)
    (happ : s.applied = some result) :
    s.Fresh r event ∧ ((s.Recorded r event → s.Done r event) ↔
      ∀ e ∈ emission eventId result, e ∈ s.emitted) := by
  refine ⟨.inl ⟨eventId, eventType, hkey, hrow⟩, ?_⟩
  rw [recorded_imp_done_iff hkey hrow]
  simp [happ]

theorem conclude_raised {e : Exc} (hkey : eventKey r event = some (eventId, eventType))
    (hrow : ran.state.webhookEvents.any (Db.isEvent provider eventId) = true)
    (happlied : s.applied = none) (hemitted : s.emitted = []) (hanswered : s.answered = false)
    (hvalue : ran.value = some (.error e)) :
    (answer (s.conclude eventId l ran)).Fresh r event ∧
      (((answer (s.conclude eventId l ran)).Recorded r event →
        (answer (s.conclude eventId l ran)).Done r event) ↔
      e.isException = true ∧ ∃ now, l.forget = some (.ok now)) := by
  have hlost (reply : Option Reply) :=
    lost (s := answer (reply, { s with db := ran.state })) hkey hrow happlied
  unfold conclude
  rw [hvalue]
  dsimp only
  cases hexc : e.isException with
  | false => simpa using hlost none
  | true =>
    cases hforget : l.forget with
    | none => simpa using hlost none
    | some fate =>
      cases fate with
      | raises e => simpa using hlost (some .internalError)
      | ok now =>
        -- forgotten: as if nothing had come
        have hgone : ¬ (answer (some .processingError,
            { s with db := ran.state.forgetEvent provider eventId })).Recorded r event :=
          not_recorded hkey (any_forgetEvent ran.state eventId)
        refine ⟨.inr ⟨happlied, hemitted, by simp [answer, hanswered, Reply.statusCode]⟩, ?_⟩
        exact ⟨fun _ => ⟨rfl, now, rfl⟩, fun _ hrec => absurd hrec hgone⟩

theorem conclude_returned (hkey : eventKey r event = some (eventId, eventType))
    (hrow : ran.state.webhookEvents.any (Db.isEvent provider eventId) = true)
    (hemitted : s.emitted = []) (hvalue : ran.value = some (.ok result)) :
    (answer (s.conclude eventId l ran)).Fresh r event ∧
      (((answer (s.conclude eventId l ran)).Recorded r event →
        (answer (s.conclude eventId l ran)).Done r event) ↔
      emission eventId result = none ∨ (∃ now, l.mark = some (.ok now)) ∧ l.emits = true) := by
  have hrow' := (any_markEventProcessed ran.state eventId result.action.value).trans hrow
  -- nothing is emitted when the process stops before, or the mark fails
  have hsilent (reply : Option Reply) {db : Db}
      (hdb : db.webhookEvents.any (Db.isEvent provider eventId) = true) :
      (answer (reply, { s with db := db, applied := some result })).Fresh r event ∧
      (((answer (reply, { s with db := db, applied := some result })).Recorded r event →
        (answer (reply, { s with db := db, applied := some result })).Done r event) ↔
      emission eventId result = none) := by
    obtain ⟨hfresh, hdone⟩ := applied_done_iff
      (s := answer (reply, { s with db := db, applied := some result })) hkey hdb rfl
    refine ⟨hfresh, hdone.trans ?_⟩
    cases emission eventId result with
    | none => simp
    | some e => simp [answer, hemitted]
  unfold conclude
  rw [hvalue]
  dsimp only
  cases hmark : l.mark with
  | none => simpa using hsilent none hrow
  | some fate =>
    cases fate with
    | raises e => simpa using hsilent (some .internalError) hrow
    | ok now =>
      dsimp only
      cases hem : emission eventId result with
      | none => simpa [hem] using hsilent (some (.processed result.action)) hrow'
      | some e =>
        dsimp only
        cases hemits : l.emits with
        | false => simpa [hem] using hsilent none hrow'
        | true =>
          have hdone := applied_done_iff (s := answer (some (.processed result.action),
            { s with
              db := ran.state.markEventProcessed provider eventId result.action.value
              applied := some result
              emitted := s.emitted ++ [e] })) hkey hrow' rfl
          simpa [hem, answer] using hdone

end Conclude

/-- How a delivery that has taken the event on leaves it. -/
theorem conclude_done_iff {eventId : String} {eventType : Option String}
    {ran : Effect.Ended Db ℚ Exc LifecycleResult}
      (hkey : eventKey r event = some (eventId, eventType))
      (hrow : ran.state.webhookEvents.any (Db.isEvent provider eventId) = true)
      (happlied : s.applied = none) (hemitted : s.emitted = []) (hanswered : s.answered = false) :
    (answer (s.conclude eventId l ran)).Fresh r event ∧
      (((answer (s.conclude eventId l ran)).Recorded r event →
        (answer (s.conclude eventId l ran)).Done r event) ↔
      match ran.value with
      | none => False
      | some (.error e) => e.isException = true ∧ ∃ now, l.forget = some (.ok now)
      | some (.ok result) =>
        emission eventId result = none ∨ (∃ now, l.mark = some (.ok now)) ∧ l.emits = true) := by
  cases hvalue : ran.value with
  | none =>
    unfold conclude
    rw [hvalue]
    exact lost hkey hrow happlied
  | some value =>
    cases value with
    | error e => exact conclude_raised hkey hrow happlied hemitted hanswered hvalue
    | ok result => exact conclude_returned hkey hrow hemitted hvalue

theorem recorded_after (uuid : String) (fs : List (Fate ℚ Exc)) {eventId : String}
    (eventType : Option String)
      (hnew : s.db.webhookEvents.any (Db.isEvent provider eventId) = false) :
    (runEvent r event uuid fs
      (s.db.recordEventOnce provider eventId eventType).2).state.webhookEvents.any
        (Db.isEvent provider eventId) = true := by
  rw [runEvent_webhookEvents]
  simp [Db.recordEventOnce, hnew, Db.isEvent]

/-- A delivery that has taken the event on is answered only at its end. -/
theorem conclude_answered {eventId : String} {ran : Effect.Ended Db ℚ Exc LifecycleResult}
    (hanswered : s.answered = false) (h : (answer (s.conclude eventId l ran)).answered = true) :
    ∃ result, ran.value = some (.ok result) ∧
      (emission eventId result = none ∨ (∃ now, l.mark = some (.ok now)) ∧ l.emits = true) := by
  unfold conclude at h
  cases hvalue : ran.value with
  | none => simp [hvalue, answer, hanswered] at h
  | some value =>
    cases value with
    | error e =>
      rw [hvalue] at h
      dsimp only at h
      split at h
      · simp [answer, hanswered] at h
      · split at h <;> simp [answer, hanswered, Reply.statusCode] at h
    | ok result =>
      refine ⟨result, rfl, ?_⟩
      rw [hvalue] at h
      dsimp only at h
      split at h
      · simp [answer, hanswered] at h
      · simp [answer, hanswered, Reply.statusCode] at h
      · rename_i now hmark
        split at h
        · rename_i hnone
          exact .inl hnone
        · split at h
          · rename_i hemits
            exact .inr ⟨⟨now, hmark⟩, hemits⟩
          · simp [answer, hanswered] at h

/-- An answered event is done, and so it is whatever the next delivery, if that is answered. -/
def Sound (r : Render F) (event : StripeEvent F) (s : WebhookState) : Prop :=
  (s.answered = true → s.Done r event) ∧
    ∀ l s', step r event s l = some s' → s'.answered = true → s'.Done r event

theorem sound_iff (h : s.Fresh r event) :
    s.Sound r event ↔ (s.Recorded r event → s.Done r event) := by
  constructor
  · intro hs hrec
    -- a delivery that is carried out finds the row
    let l : StripeDelivery :=
      { uuid := "", record := some (.ok 0), handle := [], forget := none, mark := none, emits := false }
    have hdup : s.deliver r event l = (some .duplicate, s) := by
      obtain ⟨hno | hno, -⟩ | ⟨-, hd⟩ | ⟨eventId, eventType, now, hkey, -, hrow, -⟩ :=
        deliver_cases r event s l
      · obtain ⟨eventId, eventType, hkey, -⟩ := hrec
        rw [hno] at hkey
        cases hkey
      · exact absurd rfl (hno 0)
      · exact hd
      · exact absurd hrec (not_recorded hkey hrow)
    have hans : (answer (s.deliver r event l)).answered = true := by
      simp [hdup, answer, Reply.statusCode]
    have hdone := hs.2 l _ rfl hans
    rw [hdup] at hdone
    exact hdone
  · intro hrec
    have hself : s.answered = true → s.Done r event := by
      intro hans
      obtain hr | ⟨-, -, hno⟩ := h
      · exact hrec hr
      · rw [hans] at hno
        cases hno
    refine ⟨hself, fun l s' hstep hans => ?_⟩
    cases hstep
    obtain ⟨-, reply, hd, hreply⟩ | ⟨hr, hd⟩ | ⟨eventId, eventType, now, hkey, -, hrow, hd⟩ :=
      deliver_cases r event s l
    · rw [hd] at hans ⊢
      simp only [answer, hreply, Bool.or_false] at hans
      exact hself hans
    · rw [hd]
      exact hrec hr
    · obtain ⟨happ, hem, hno⟩ := h.resolve_left (not_recorded hkey hrow)
      rw [hd] at hans ⊢
      obtain ⟨hfresh, hiff⟩ :=
          conclude_done_iff hkey (recorded_after l.uuid l.handle eventType hrow)
        happ hem hno (l := l)
      obtain ⟨result, hvalue, hcond⟩ := conclude_answered hno hans
      rw [hvalue] at hiff
      refine hiff.mpr hcond (hfresh.resolve_right fun hf => ?_)
      rw [hans] at hf
      cases hf.2.2

theorem step_sound_iff (h : s.Fresh r event) (hs : s.Sound r event)
    (hstep : step r event s l = some s') :
    s'.Fresh r event ∧ (s'.Sound r event ↔ s.Keeps r event l) := by
  have hdone := (sound_iff h).mp hs
  cases hstep
  obtain ⟨hno, reply, hd, hreply⟩ | ⟨hr, hd⟩ | ⟨eventId, eventType, now, hkey, hrecord, hrow, hd⟩ :=
    deliver_cases r event s l
  · have hsame : answer (s.deliver r event l) = s := by
      rw [hd]
      simp [answer, hreply]
    rw [hsame]
    refine ⟨h, fun _ eventId eventType now hkey hrecord => ?_, fun _ => hs⟩
    obtain hnone | hne := hno
    · rw [hnone] at hkey
      cases hkey
    · exact absurd hrecord (hne now)
  · rw [hd]
    have hfresh : (answer (some .duplicate, s)).Fresh r event := .inl hr
    refine ⟨hfresh, fun _ eventId eventType now hkey _ hrow => ?_, fun _ => ?_⟩
    · exact absurd hr (not_recorded hkey hrow)
    · exact (sound_iff hfresh).mpr fun _ => hdone hr
  · obtain ⟨happ, hem, hnoans⟩ := h.resolve_left (not_recorded hkey hrow)
    rw [hd]
    obtain ⟨hfresh, hiff⟩ := conclude_done_iff hkey (recorded_after l.uuid l.handle eventType hrow)
      happ hem hnoans (l := l)
    refine ⟨hfresh, (sound_iff hfresh).trans (hiff.trans ⟨fun hcond => ?_, fun hk => ?_⟩)⟩
    · intro eventId' eventType' now' hkey' _ _
      rw [hkey] at hkey'
      cases hkey'
      exact hcond
    · exact hk eventId eventType now hkey hrecord hrow

/-- From a store that does not have the event: in a run of deliveries an answered event is done, and
every further delivery that is answered finds it done, exactly when every delivery that takes the
event on gets through. -/
theorem answered_iff_guarded (r : Render F) (event : StripeEvent F) {db : Db} {t : WebhookState}
    {ls : List StripeDelivery} (hnew : ¬ Recorded r event { db := db })
    (hrun : Run (step r event) { db := db } ls t) :
    Always (step r event) (Sound r event) { db := db } ls ↔
      Guarded (step r event) (Keeps r event) { db := db } ls := by
  have hfresh : Fresh r event { db := db } := .inr ⟨rfl, rfl, rfl⟩
  refine hrun.always_iff_guarded_of_strengthening (I := fun s => s.Fresh r event ∧ s.Sound r event)
    ?_ (fun s hs => hs.2) ?_ ⟨hfresh, (sound_iff hfresh).mpr fun hrec => absurd hrec hnew⟩
  · intro s l s' hs hkeeps hstep
    obtain ⟨hfresh', hiff⟩ := step_sound_iff hs.1 hs.2 hstep
    exact ⟨hfresh', hiff.mpr hkeeps⟩
  · intro s l s' hs hstep hsound
    exact (step_sound_iff hs.1 hs.2 hstep).2.mp hsound

/-- Every call is carried out. -/
def getsThrough : StripeDelivery :=
  { uuid := "c1"
    record := some (.ok 1)
    handle := List.replicate 4 (.ok 1)
    forget := some (.ok 1)
    mark := some (.ok 1)
    emits := true }

/-- The process crashes right after the id was recorded. -/
def crashesThere : StripeDelivery := { getsThrough with handle := [] }

/-- A delivery that gets through, and what is delivered after it. -/
theorem answered_iff_guarded_once :
    Always (step .plain firstSubscription) (Sound .plain firstSubscription) { db := proStore }
      [getsThrough] := by
  obtain ⟨t, hrun⟩ : ∃ t, Run (step .plain firstSubscription) { db := proStore } [getsThrough] t :=
    ⟨_, .single rfl⟩
  refine (answered_iff_guarded .plain firstSubscription ?_ hrun).mpr ⟨?_, fun _ _ => trivial⟩
  · rintro ⟨eventId, eventType, -, hrow⟩
    cases hrow
  · intro eventId eventType now hkey hrecord hrow
    have hevent : eventKey .plain firstSubscription =
        some ("evt_1", some "customer.subscription.created") := by decide +kernel
    rw [hevent] at hkey
    cases hkey
    have hvalue : (runEvent .plain firstSubscription getsThrough.uuid getsThrough.handle
        (proStore.recordEventOnce provider "evt_1"
          (some "customer.subscription.created")).2).value =
        some (.ok { action := .activated, clientId := some "c1" }) := by decide +kernel
    rw [hvalue]
    exact .inr ⟨⟨1, rfl⟩, rfl⟩

/-- Stripe delivers the event again and is told that it is a duplicate; nothing has come of it. -/
theorem answered_not_done :
    ∃ t, Run (step .plain firstSubscription) { db := proStore } [crashesThere, getsThrough] t ∧
      t.answered = true ∧ ¬ t.Done .plain firstSubscription := by
  refine ⟨_, .cons rfl (.single rfl), by decide +kernel, ?_⟩
  rintro ⟨eventId, eventType, result, -, happ, -⟩
  have hnone : (answer ((answer (deliver .plain firstSubscription { db := proStore }
      crashesThere)).deliver .plain firstSubscription getsThrough)).applied = none := by
    decide +kernel
  rw [hnone] at happ
  cases happ

end WebhookState

end InferenceEngine
