import InferenceEngine.Billing.DeliveryRuns

/-!
# Billing.DeliveryTiming

The times of attempts. `run_once` reads the clock once, and that reading stamps and signs every POST
of the batch, selects its secrets and is what the next attempt is put off from, however long the
POSTs before it have taken. The secrets are read some time before the POST is started.

* `Stamped`: a POST is stamped and signed with what is active when it is started.
* `Spaced`: the attempts of a delivery are as far apart as the schedule says.
* `timed_of_punctual`: the first holds in every run in which what a POST was prepared with is still
  so when it is started, and the second in every run in which a delivery is not claimed again too
  early: a POST that was late in its batch makes its next attempt due too early by as much.
-/

namespace InferenceEngine

open Lts DeliveryWorker

/-- The last POST of a delivery, after one more event: when it was started, and what the clock of
its batch said. -/
def Happening.lastPost (id : String) (before : Option (ℚ × ℚ)) : Happening → Option (ℚ × ℚ)
  | .posted d _ begun reading _ => if d.id == id then some (begun, reading) else before
  | _ => before

def lastPost (id : String) (log : List Happening) : Option (ℚ × ℚ) :=
  log.foldl (fun before h => h.lastPost id before) none

theorem lastPost_concat (id : String) (log : List Happening) (h : Happening) :
    lastPost id (log ++ [h]) = h.lastPost id (lastPost id log) := by
  unfold lastPost
  rw [List.foldl_append]
  rfl

theorem lastPost_other {id : String} {log : List Happening} {h : Happening}
    (hposts : h.posts id = false) : lastPost id (log ++ [h]) = lastPost id log := by
  rw [lastPost_concat]
  cases h with
  | posted d p begun reading there => exact if_neg (by simpa using hposts)
  | began | ended | replayed => rfl

theorem Happening.eq_posted_of_lastPost {h : Happening} {id : String} {begun reading : ℚ}
    (heq : h.lastPost id none = some (begun, reading)) :
    ∃ d p there, h = .posted d p begun reading there ∧ d.id = id := by
  cases h with
  | posted d p begun' reading' there =>
    simp only [Happening.lastPost] at heq
    split at heq <;> cases heq
    rename_i hid
    exact ⟨d, p, there, rfl, beq_iff_eq.mp hid⟩
  | began | ended | replayed => cases heq

/-- What a POST bears as its time. -/
def Happening.stamp : Happening → Option String
  | .posted _ p _ _ _ => p.headers.lookup "webhook-timestamp"
  | _ => none

/-- The n-th attempt of a delivery and the next one are as far apart as the n-th entry of the
schedule. -/
def DeliveryWorker.Spaced (w : DeliveryWorker) (past : List Happening) : Happening → Prop
  | .posted d _ begun _ _ => ∀ last reading, lastPost d.id past = some (last, reading) →
    ∃ delay, w.schedule[min (past.countP (·.posts d.id) - 1)
      (w.schedule.length - 1)]? = some delay ∧
      last + delay ≤ begun
  | _ => True

namespace DeliveryState

variable (w : DeliveryWorker)

/-- The POST that is started bears the time, and is signed with the secrets, of its start. -/
def Stamped (s : DeliveryState) (_ : DeliveryLabel) (s' : DeliveryState) : Prop :=
  ∀ d p begun reading there, s'.log = s.log ++ [.posted d p begun reading there] →
    p.headers = buildHeaders w.sign (s.store.activeSecrets d.endpointId s.clock) d.id
      (seconds s.clock) d.payload

/-- A secret of the endpoint has expired since the batch was begun. -/
def expired (s : DeliveryState) (now : ℚ) (endpointId : String) : Bool :=
  s.store.secrets.any fun k =>
    k.endpointId = endpointId && k.expiresAt.any fun x => now < x && x ≤ s.clock

/-- The endpoint whose secrets were read for a POST that is not started yet. -/
def signedFor (s : DeliveryState) : Option String :=
  match s.batch with
  | some ⟨_, _, some ⟨d, .signed _ _⟩⟩ => some d.endpointId
  | _ => none

/-- A POST is started in the second of its batch, with all secrets still active that were; and no
secret of its endpoint is added, rotated or deleted between the reading of them and the start of the
POST. -/
def fresh (s : DeliveryState) : DeliveryLabel → Bool
  | .post =>
    s.batch.all fun b => b.current.all fun a =>
      seconds b.now = seconds s.clock && !s.expired b.now a.delivery.endpointId
  | l => s.signedFor.all fun id => !l.rekeys id

/-- No replay, and no POST that raises. And a batch claims a delivery again later than it was put
off to, by as much as its last POST came after the reading of its own batch. -/
def punctual (s : DeliveryState) : DeliveryLabel → Bool
  | .poll =>
    (s.store.claimDue s.clock w.batchLimit).all fun d => (lastPost d.id s.log).all fun last =>
      d.nextAttemptAt + (last.1 - last.2) ≤ s.clock
  | l => s.counted l

/-- The attempts of every delivery are as far apart as the schedule says. -/
def Spread (s : DeliveryState) : Prop :=
  ∀ past h rest, s.log = past ++ h :: rest → w.Spaced past h

/-- The next attempt of a delivery is put off from the reading of the batch that has posted it
last. -/
def PutOff (log : List Happening) (d : Delivery) : Prop :=
  ∀ begun reading, lastPost d.id log = some (begun, reading) →
    reading + nextDelay (log.countP (·.posts d.id)) w.schedule ≤ d.nextAttemptAt

/-- The last POST of the delivery is far enough behind `now`. -/
def Ripe (log : List Happening) (now : ℚ) (d : Delivery) : Prop :=
  ∀ begun reading, lastPost d.id log = some (begun, reading) →
    begun + nextDelay (log.countP (·.posts d.id)) w.schedule ≤ now

structure TimedInv (s : DeliveryState) : Prop extends Inv w s where
  spread : Spread w s
  rowsOff : ∀ d ∈ s.store.deliveries, d.status = .pending → s.underWay d.id = 0 → PutOff w s.log d
  dueOff : ∀ b ∈ s.batch, b.now ≤ s.clock ∧ ∀ d ∈ b.due, Ripe w s.log b.now d
  /-- the attempt under way is yet to be made, or is the last POST of its delivery -/
  current : ∀ b ∈ s.batch, ∀ a ∈ b.current,
    (a.stage.isPost = false → Ripe w s.log b.now a.delivery) ∧
      ∀ p begun, a.stage = .posting p begun → lastPost a.delivery.id s.log = some (begun, b.now)

variable {w} {s s' : DeliveryState} {l : DeliveryLabel}

theorem init_timedInv (endpoints : List Endpoint) (secrets : List WebhookSecret) (clock : ℚ) :
    TimedInv w (init endpoints secrets clock) where
  toInv := init_inv endpoints secrets clock
  spread := by simp [Spread, init]
  rowsOff := by simp [init]
  dueOff := by simp [init]
  current := by simp [init]

/-! ## The last POST -/

theorem lastPost_mem {id : String} {last : ℚ × ℚ} {log : List Happening}
    (h : lastPost id log = some last) :
    ∃ x ∈ log, x.posts id = true := by
  induction log using List.reverseRecOn with
  | nil => cases h
  | append_singleton log x ih =>
    by_cases hx : x.posts id = true
    · exact ⟨x, List.mem_append_right _ (List.mem_singleton_self x), hx⟩
    · rw [lastPost_other (by simpa using hx)] at h
      obtain ⟨y, hy, hposts⟩ := ih h
      exact ⟨y, List.mem_append_left _ hy, hposts⟩

/-- What is no POST of a delivery puts nothing off. -/
theorem PutOff.append {log : List Happening} {h : Happening} {d : Delivery} (hd : PutOff w log d)
    (hposts : h.posts d.id = false) : PutOff w (log ++ [h]) d := by
  intro begun reading hlast
  rw [lastPost_other hposts] at hlast
  rw [List.countP_append, List.countP_singleton, hposts]
  exact hd begun reading hlast

theorem Ripe.append {log : List Happening} {h : Happening} {d : Delivery} {now : ℚ}
    (hd : Ripe w log now d) (hposts : h.posts d.id = false) : Ripe w (log ++ [h]) now d := by
  intro begun reading hlast
  rw [lastPost_other hposts] at hlast
  rw [List.countP_append, List.countP_singleton, hposts]
  exact hd begun reading hlast

theorem Ripe.spaced {log : List Happening} {d : Delivery} {now clock reading : ℚ} {p : Posted}
    {there : Option Endpoint} (hd : Ripe w log now d) (hclock : now ≤ clock) :
    w.Spaced log (.posted d p clock reading there) := by
  intro last reading' hlast
  obtain ⟨x, hx, hposts⟩ := lastPost_mem hlast
  have hpos : 0 < log.countP (·.posts d.id) := List.countP_pos_iff.mpr ⟨x, hx, hposts⟩
  have hdelay := nextDelay_eq w (log.countP (·.posts d.id) - 1)
  rw [Nat.sub_add_cancel hpos] at hdelay
  exact ⟨_, hdelay, (hd last reading' hlast).trans hclock⟩

theorem PutOff.ripe {log : List Happening} {d : Delivery} {now : ℚ} (hd : PutOff w log d)
    (hlate : ∀ begun reading, lastPost d.id log = some (begun, reading) →
      d.nextAttemptAt + (begun - reading) ≤ now) : Ripe w log now d := by
  intro begun reading hlast
  have hoff := hd begun reading hlast
  have hnow := hlate begun reading hlast
  linarith

/-! ## The steps -/

theorem TimedInv.other (hs : TimedInv w s) (hclock : s.clock ≤ s'.clock)
    (hrows : s'.store.deliveries.Sublist s.store.deliveries) (hbatch : s'.batch = s.batch)
    (hlog : s'.log = s.log) (hissued : s'.issued = s.issued) : TimedInv w s' where
  toInv := hs.toInv.other hrows hbatch hlog hissued
  spread := by
    unfold Spread
    rw [hlog]
    exact hs.spread
  rowsOff := by
    intro d hd hpending hunder
    rw [hlog]
    refine hs.rowsOff d (hrows.subset hd) hpending ?_
    unfold underWay at hunder ⊢
    rwa [hbatch] at hunder
  dueOff := by
    rw [hbatch, hlog]
    intro b hb
    exact ⟨(hs.dueOff b hb).1.trans hclock, (hs.dueOff b hb).2⟩
  current := by
    rw [hbatch, hlog]
    exact hs.current

theorem TimedInv.enqueue (hs : TimedInv w s) {id : String} (endpointId payload : String)
    (hnew : id ∉ s.issued) :
    TimedInv w { s with
      store := s.store.insertDelivery id endpointId payload s.clock
      issued := id :: s.issued } where
  toInv := hs.toInv.enqueue endpointId payload hnew
  spread := hs.spread
  rowsOff := by
    intro d hd hpending hunder
    rcases mem_insertDelivery hd with hd | rfl
    · exact hs.rowsOff d hd hpending hunder
    · intro begun reading hlast
      obtain ⟨x, hx, hposts⟩ := lastPost_mem hlast
      have hne : x.deliveryId ≠ id := by
        rintro rfl
        exact hnew (hs.issued.2.2 x hx)
      rw [(Happening.of_other hne).1] at hposts
      cases hposts
  dueOff := hs.dueOff
  current := hs.current

theorem TimedInv.poll (hs : TimedInv w s) (hidle : s.batch = none)
    (hok : s.punctual w .poll = true) :
    TimedInv w { s with batch := some ⟨s.clock, s.store.claimDue s.clock w.batchLimit, none⟩ } := by
  have hunder : ∀ id, s.underWay id = 0 := by
    intro id
    unfold underWay
    rw [hidle]
  constructor
  case toInv => exact hs.toInv.poll hidle
  case spread => exact hs.spread
  case rowsOff => exact fun d hd hpending _ => hs.rowsOff d hd hpending (hunder d.id)
  case dueOff =>
    intro b hb
    cases hb
    refine ⟨le_refl _, fun d hd => (hs.rowsOff d (mem_claimDue hd) (claimDue_pending hd).1
      (hunder d.id)).ripe ?_⟩
    intro begun reading hlast
    have hlate := List.all_eq_true.mp hok d hd
    rw [hlast] at hlate
    simpa using hlate
  case current =>
    intro b hb a ha
    cases hb
    cases ha

theorem TimedInv.leave (hs : TimedInv w s) {now : ℚ} {due : List Delivery}
    (hbatch : s.batch = some ⟨now, due, none⟩) : TimedInv w { s with batch := none } := by
  constructor
  case toInv => exact hs.toInv.leave hbatch
  case spread => exact hs.spread
  case rowsOff =>
    intro d hd hpending _
    refine hs.rowsOff d hd hpending ?_
    unfold underWay
    rw [hbatch]
  case dueOff =>
    intro b hb
    cases hb
  case current =>
    intro b hb
    cases hb

theorem TimedInv.start (hs : TimedInv w s) {now : ℚ} {d : Delivery} {due : List Delivery}
    (hbatch : s.batch = some ⟨now, d :: due, none⟩) :
    TimedInv w { s with
      batch := some ⟨now, due, some ⟨d, s.seen w d⟩⟩
      log := s.log ++ [.began d (s.store.getEndpoint d.endpointId)] } := by
  obtain ⟨hclock, hdue⟩ := hs.dueOff _ hbatch
  constructor
  case toInv => exact hs.toInv.start hbatch
  case spread => exact split_concat hs.spread trivial
  case rowsOff =>
    intro d' hd' hpending _
    refine (hs.rowsOff d' hd' hpending ?_).append rfl
    unfold underWay
    rw [hbatch]
  case dueOff =>
    intro b hb
    cases hb
    exact ⟨hclock, fun d' hd' => (hdue d' (List.mem_cons_of_mem _ hd')).append rfl⟩
  case current =>
    intro b hb a ha
    cases hb
    cases ha
    refine ⟨fun _ => (hdue d (List.mem_cons_self ..)).append rfl, fun p begun hstage => ?_⟩
    unfold seen at hstage
    split at hstage <;> cases hstage

theorem TimedInv.sign (hs : TimedInv w s) {now : ℚ} {d : Delivery} {due : List Delivery}
    {endpoint : Endpoint} (hbatch : s.batch = some ⟨now, due, some ⟨d, .found endpoint⟩⟩)
      (secrets : List String) :
    TimedInv w { s with batch := some ⟨now, due, some ⟨d, .signed endpoint secrets⟩⟩ } := by
  constructor
  case toInv => exact hs.toInv.sign hbatch secrets
  case spread => exact hs.spread
  case rowsOff =>
    intro d' hd' hpending _
    exact hs.rowsOff d' hd' hpending (by simp [underWay, hbatch, Stage.isPost])
  case dueOff =>
    intro b hb
    cases hb
    exact hs.dueOff ⟨now, due, some ⟨d, .found endpoint⟩⟩ hbatch
  case current =>
    intro b hb a ha
    cases hb
    cases ha
    exact ⟨fun _ => (hs.current _ hbatch ⟨d, .found endpoint⟩ rfl).1 rfl,
      fun p begun h => (by cases h)⟩

theorem TimedInv.post (hs : TimedInv w s) {now : ℚ} {d : Delivery} {due : List Delivery}
    {endpoint : Endpoint} {secrets : List String} (hbatch : s.batch = some ⟨now, due,
      some ⟨d, .signed endpoint secrets⟩⟩) (there : Option Endpoint) :
    TimedInv w { s with
      batch := some ⟨now, due, some ⟨d, .posting (w.request now d endpoint secrets) s.clock⟩⟩
      log := s.log ++ [.posted d (w.request now d endpoint secrets) s.clock now there] } := by
  obtain ⟨hclock, hdue⟩ := hs.dueOff _ hbatch
  constructor
  case toInv => exact hs.toInv.post hbatch there
  case spread =>
    refine split_concat hs.spread ?_
    exact ((hs.current _ hbatch ⟨d, .signed endpoint secrets⟩ rfl).1 rfl).spaced hclock
  case rowsOff =>
    intro d' hd' hpending hunder
    have hne : (d.id == d'.id) = false := by
      by_contra hid
      have hid : (d.id == d'.id) = true := by simpa using hid
      simp [underWay, hid, Stage.isPost] at hunder
    exact (hs.rowsOff d' hd' hpending (by simp [underWay, hbatch, Stage.isPost])).append hne
  case dueOff =>
    intro b hb
    cases hb
    refine ⟨hclock, fun d' hd' => (hdue d' hd').append ?_⟩
    have hne : d.id ≠ d'.id := by
      have hclaims := hs.claims
      simp only [DeliveryState.claimed, hbatch, Option.map_some, Option.toList_some,
        List.singleton_append, List.map_cons, List.nodup_cons] at hclaims
      intro heq
      exact hclaims.1 (List.mem_map.mpr ⟨d', hd', heq.symm⟩)
    simpa using hne
  case current =>
    intro b hb a ha
    cases hb
    cases ha
    refine ⟨fun h => (by cases h), fun p begun h => ?_⟩
    cases h
    rw [lastPost_concat]
    exact if_pos (by simp)

/-- A failed POST with attempts left is put off from the reading of its batch. -/
theorem TimedInv.putOff_retry (hs : TimedInv w s) {now : ℚ} {due : List Delivery} {a : Attempt}
    {opened : Opened} {oc : WebhookStore.Outcome} (hbatch : s.batch = some ⟨now, due, some a⟩)
    (hpost : a.stage.isPost = true)
    (hnext : oc.nextAttemptAt = some (now + nextDelay (a.delivery.attempts + 1) w.schedule)) :
    PutOff w (s.log ++ [.ended a opened now (some oc)]) (oc.set now a.delivery) := by
  have hid : (oc.set now a.delivery).id = a.delivery.id := rfl
  have hoff : (oc.set now a.delivery).nextAttemptAt =
      now + nextDelay (a.delivery.attempts + 1) w.schedule := by
    unfold WebhookStore.Outcome.set
    rw [hnext]
    rfl
  have hcount : s.log.countP (·.posts a.delivery.id) = a.delivery.attempts + 1 := by
    have hopen := (hs.claimed a.delivery (by simp [DeliveryState.claimed, hbatch])).1
    rw [hs.books, hopen.no_success hs.told, ← hopen.attempts]
    simp [underWay, hbatch, hpost]
  obtain ⟨p, begun, hstage⟩ : ∃ p begun, a.stage = .posting p begun := by
    cases hstage : a.stage with
    | posting p begun => exact ⟨p, begun, rfl⟩
    | refused error | found endpoint | signed endpoint secrets =>
      simp [hstage, Stage.isPost] at hpost
  intro last reading hlast
  rw [hid, lastPost_other rfl, (hs.current _ hbatch a rfl).2 p begun hstage,
    Option.some_inj] at hlast
  rw [hid, hoff, List.countP_append, List.countP_singleton, hcount, ← (Prod.mk.inj hlast).2]
  rfl

theorem TimedInv.record (hs : TimedInv w s) {now : ℚ} {due : List Delivery} {a : Attempt}
    {opened : Opened} {oc : WebhookStore.Outcome} (hbatch : s.batch = some ⟨now, due, some a⟩)
    (hverdict : w.verdict opened now a = some (.ok oc)) :
    TimedInv w { s with
      store := s.store.update a.delivery.id oc now
      batch := some ⟨now, due, none⟩
      log := s.log ++ [.ended a opened now (some oc)] } := by
  obtain ⟨hclock, hdue⟩ := hs.dueOff _ hbatch
  have hmem : a.delivery ∈ s.claimed := by simp [DeliveryState.claimed, hbatch]
  constructor
  case toInv => exact hs.toInv.record hbatch hverdict
  case spread => exact split_concat hs.spread trivial
  case rowsOff =>
    intro row hrow hpending _
    rcases hs.mem_updated hmem hrow with rfl | ⟨hrow, hid⟩
    · cases hs.written hbatch hverdict with
      | retry hpost _ _ _ _ hnext => exact hs.putOff_retry hbatch hpost hnext
      | refused _ h _ | succeeded _ _ h | dead _ _ _ h =>
        rw [show oc.status = .pending from hpending] at h
        cases h
    · refine (hs.rowsOff row hrow hpending ?_).append rfl
      unfold underWay
      rw [hbatch]
      exact if_neg (by simp [hid.symm])
  case dueOff =>
    intro b hb
    cases hb
    exact ⟨hclock, fun d hd => (hdue d hd).append rfl⟩
  case current =>
    intro b hb a' ha'
    cases hb
    cases ha'

theorem step_timedInv (hs : TimedInv w s) (hok : s.punctual w l = true)
    (hst : step w s l = some s') :
    TimedInv w s' := by
  cases moves_of_step hst with
  | other hclock hrows hbatch hlog hissued => exact hs.other hclock hrows hbatch hlog hissued
  | enqueue id endpointId payload hnew => exact hs.enqueue endpointId payload hnew
  | poll hidle => exact hs.poll hidle hok
  | leave hbatch => exact hs.leave hbatch
  | start hbatch => exact hs.start hbatch
  | sign hbatch => exact hs.sign hbatch _
  | post hbatch => exact hs.post hbatch _
  | record hbatch hverdict => exact hs.record hbatch hverdict
  | raise hbatch hverdict =>
    obtain ⟨rfl, hposting⟩ := hs.raised hbatch hverdict
    simp [punctual, counted, hposting] at hok
  | replay id => cases hok

/-! ## What is signed -/

/-- The clock of a batch is behind, and the secrets that were read for a POST are still what it
would read. -/
structure Signed (s : DeliveryState) : Prop where
  behind : ∀ b ∈ s.batch, b.now ≤ s.clock
  found : ∀ b ∈ s.batch, ∀ a ∈ b.current, ∀ e ∈ a.stage.endpoint?, e.id = a.delivery.endpointId
  secrets : ∀ b ∈ s.batch, ∀ a ∈ b.current, ∀ e secrets, a.stage = .signed e secrets →
    secrets = s.store.activeSecrets a.delivery.endpointId b.now

theorem init_signed (endpoints : List Endpoint) (secrets : List WebhookSecret) (clock : ℚ) :
    Signed (init endpoints secrets clock) := by
  constructor <;> simp [init]

/-- A step of something else than the worker, that leaves the secrets of the POST that is prepared
as they are. -/
theorem Signed.other (hs : s.Signed) (hclock : s.clock ≤ s'.clock) (hbatch : s'.batch = s.batch)
    (hsecrets : ∀ id ∈ s.signedFor, ∀ now,
      s'.store.activeSecrets id now = s.store.activeSecrets id now) :
    s'.Signed where
  behind := by
    rw [hbatch]
    exact fun b hb => (hs.behind b hb).trans hclock
  found := by
    rw [hbatch]
    exact hs.found
  secrets := by
    rw [hbatch]
    rintro ⟨now, due, current⟩ hb ⟨d, stage⟩ ha e secrets hstage
    have hb : s.batch = some ⟨now, due, current⟩ := hb
    have ha : current = some ⟨d, stage⟩ := ha
    have hstage : stage = .signed e secrets := hstage
    subst ha hstage
    rw [hsecrets d.endpointId (by simp [signedFor, hb])]
    exact hs.secrets _ hb _ rfl e secrets rfl

theorem Signed.idle (hclock : ∀ b ∈ s'.batch, b.now ≤ s'.clock)
    (hidle : ∀ b ∈ s'.batch, ∀ a ∈ b.current,
    a.stage.endpoint? = none) : s'.Signed where
  behind := hclock
  found b hb a ha e he := by
    rw [hidle b hb a ha] at he
    cases he
  secrets b hb a ha e secrets hstage := by
    have hnone := hidle b hb a ha
    rw [hstage] at hnone
    cases hnone

theorem rekeys_of_fresh (hok : s.fresh l = true) {id : String} (hid : s.signedFor = some id) :
    l.rekeys id = false := by
  cases l with
  | post => rfl
  | _ => simpa [fresh, hid] using hok

theorem step_signed (hs : s.Signed) (hok : s.fresh l = true) (hst : step w s l = some s') :
    s'.Signed := by
  cases moves_of_step hst with
  | other hclock _ hbatch _ _ _ hsecrets =>
    exact hs.other hclock hbatch fun id hid now =>
      WebhookStore.activeSecrets_congr (hsecrets id (rekeys_of_fresh hok hid)) now
  | enqueue id endpointId payload hnew =>
    refine hs.other le_rfl rfl fun _ _ now => WebhookStore.activeSecrets_congr ?_ now
    unfold WebhookStore.insertDelivery
    split <;> rfl
  | poll hidle =>
    refine .idle (fun b hb => ?_) fun b hb a ha => ?_
    · cases hb
      exact le_rfl
    · cases hb
      cases ha
  | leave hbatch => exact .idle (fun b hb => (by cases hb)) fun b hb => (by cases hb)
  | @start now d due hbatch =>
    have hnow : now ≤ s.clock := hs.behind _ hbatch
    constructor
    case behind =>
      intro b hb
      cases hb
      exact hnow
    case found =>
      intro b hb a ha e he
      cases hb
      cases ha
      obtain ⟨error, hlook, -⟩ | ⟨endpoint, hlook, hfind, -, -⟩ := w.look_cases d s.store
      · simp [seen, hlook, Stage.endpoint?] at he
      · simp only [seen, hlook, Stage.endpoint?, Option.mem_some] at he
        rw [← he]
        exact WebhookStore.getEndpoint_id hfind
    case secrets =>
      intro b hb a ha e secrets hstage
      cases hb
      cases ha
      unfold seen at hstage
      split at hstage <;> cases hstage
  | @sign now d due endpoint hbatch =>
    have hnow : now ≤ s.clock := hs.behind _ hbatch
    have hid : endpoint.id = d.endpointId := hs.found _ hbatch _ rfl endpoint rfl
    constructor
    case behind =>
      intro b hb
      cases hb
      exact hnow
    case found =>
      intro b hb a ha e he
      cases hb
      cases ha
      cases he
      exact hid
    case secrets =>
      intro b hb a ha e secrets hstage
      cases hb
      cases ha
      cases hstage
      rw [hid]
  | @post now d due endpoint secrets hbatch =>
    have hnow : now ≤ s.clock := hs.behind _ hbatch
    refine .idle (fun b hb => ?_) fun b hb a ha => ?_
    · cases hb
      exact hnow
    · cases hb
      cases ha
      rfl
  | @record now due a opened oc hbatch hverdict =>
    have hnow : now ≤ s.clock := hs.behind _ hbatch
    refine .idle (fun b hb => ?_) fun b hb a ha => ?_
    · cases hb
      exact hnow
    · cases hb
      cases ha
  | raise hbatch hverdict => exact .idle (fun b hb => (by cases hb)) fun b hb => (by cases hb)
  | replay id => exact hs.other le_rfl rfl fun _ _ now => rfl

/-- The secrets are those of the batch unless one of them has expired since. -/
theorem activeSecrets_of_not_expired {now : ℚ} {endpointId : String} (hnow : now ≤ s.clock)
    (hfresh : s.expired now endpointId = false) :
    s.store.activeSecrets endpointId now = s.store.activeSecrets endpointId s.clock := by
  unfold WebhookStore.activeSecrets
  have hfilter : (s.store.secrets.filter fun k =>
        k.endpointId = endpointId && k.expiresAt.all fun x => now < x) =
      s.store.secrets.filter fun k =>
        k.endpointId = endpointId && k.expiresAt.all fun x => s.clock < x := by
    refine List.filter_congr fun k hk => ?_
    by_cases hid : k.endpointId = endpointId
    · cases hx : k.expiresAt with
      | none => rfl
      | some x =>
        have hexpired : ¬ (now < x ∧ x ≤ s.clock) := by
          intro h
          have htrue : s.expired now endpointId = true :=
            List.any_eq_true.mpr ⟨k, hk, by simp [hid, hx, h.1, h.2]⟩
          rw [hfresh] at htrue
          cases htrue
        have hiff : now < x ↔ s.clock < x := by
          constructor
          · intro h
            exact not_le.mp fun hle => hexpired ⟨h, hle⟩
          · exact fun h => hnow.trans_lt h
        simp [hid, hiff]
    · simp [hid]
  rw [hfilter]

theorem step_stamped (hs : s.Signed) (hok : s.fresh l = true) (hst : step w s l = some s') :
    Stamped w s l s' := by
  intro d p begun reading there hlog
  cases moves_of_step hst with
  | other _ _ _ hsame =>
    rw [hsame] at hlog
    simp at hlog
  | enqueue | poll | leave | start | sign | record | raise => simp at hlog
  | @post now d' due endpoint secrets hbatch =>
    simp only [List.append_cancel_left_eq, List.cons.injEq, Happening.posted.injEq,
      and_true] at hlog
    obtain ⟨rfl, rfl, -, -, -⟩ := hlog
    have hsecrets : secrets = s.store.activeSecrets d'.endpointId now :=
      hs.secrets _ hbatch _ rfl _ _ rfl
    have hfresh : seconds now = seconds s.clock ∧ s.expired now d'.endpointId = false := by
      simpa [fresh, hbatch] using hok
    rw [hsecrets, activeSecrets_of_not_expired (hs.behind _ hbatch) hfresh.2]
    unfold request
    rw [hfresh.1]
  | replay id =>
    unfold DeliveryState.replay at hlog
    dsimp only at hlog
    split at hlog <;> simp at hlog

theorem Stamped.stamp_eq (h : Stamped w s l s') {x : Happening} {stamp : String}
    (hlog : s'.log = s.log ++ [x]) (hstamp : x.stamp = some stamp) :
    stamp = toString (seconds s.clock) := by
  cases x with
  | posted d p begun reading there =>
    have hlookup : ∀ secrets v,
        (buildHeaders w.sign secrets d.id v d.payload).lookup "webhook-timestamp" =
        some (toString v) := fun _ _ => rfl
    rw [Happening.stamp, h d p begun reading there hlog, hlookup, Option.some_inj] at hstamp
    exact hstamp.symm
  | began | ended | replayed => cases hstamp

/-- In every run, a POST bears the time and the secrets of its start if it is started in the second
of its batch, with no secret expired since and none changed since they were read. In every run
without replays in which no POST raises, the attempts of every delivery are as far apart as the
schedule says if no batch claims a delivery earlier than its last POST had put it off to, and as
much later as that POST was late. -/
theorem timed_of_punctual (w : DeliveryWorker) (endpoints : List Endpoint)
    (secrets : List WebhookSecret) (clock : ℚ) (ls : List DeliveryLabel) :
    (Guarded (step w) (fun s l => s.fresh l = true) (init endpoints secrets clock) ls →
      Along (step w) (Stamped w) (init endpoints secrets clock) ls) ∧
    (Guarded (step w) (fun s l => s.punctual w l = true) (init endpoints secrets clock) ls →
      Always (step w) (Spread w) (init endpoints secrets clock) ls) := by
  constructor
  · intro hok
    refine Guarded.along (I := Signed) (fun _ _ _ hs hok hst => ?_)
      (init_signed endpoints secrets clock) hok
    exact ⟨step_stamped hs hok hst, step_signed hs hok hst⟩
  · intro hok
    exact Guarded.always (I := TimedInv w) (fun _ _ _ hs hok hst => step_timedInv hs hok hst)
      (fun _ hs => hs.spread) (init_timedInv endpoints secrets clock) hok

theorem timed_secondAttempt :
    Along (step plainWorker) (Stamped plainWorker) (init [hook] [] 0) secondAttempt ∧
      Always (step plainWorker) (Spread plainWorker) (init [hook] [] 0) secondAttempt ∧
      ∃ t, Run (step plainWorker) (init [hook] [] 0) secondAttempt t ∧
        (t.log.countP (·.posts "d1"), lastPost "d1" t.log) = (2, some (30, 30)) :=
  ⟨(timed_of_punctual plainWorker [hook] [] 0 secondAttempt).1 (by decide +kernel),
    (timed_of_punctual plainWorker [hook] [] 0 secondAttempt).2 (by decide +kernel),
    run_of_exec_map (by decide +kernel)⟩

/-- Two deliveries are due, and the POST of the first one takes 40 seconds. -/
def slowBatch : List DeliveryLabel :=
  [.enqueue "d1" "e1" "", .enqueue "d2" "e1" "", .poll, .next, .sign, .post, .tick 40,
    .finish (.response 200), .next, .sign]

/-- The second one fails, and the worker polls again at once. -/
def slowRetry : List DeliveryLabel :=
  slowBatch ++ [.post, .finish (.httpError 503), .next, .poll, .next, .sign, .post]

set_option synthInstance.maxSize 256 in
/-- The second POST, at 40, bears the time 0, and its retry is made after no delay instead of 30
seconds. -/
theorem slow_batch_untimed :
    (∃ t t', Run (step plainWorker) (init [hook] [] 0) slowBatch t ∧ t.clock = 40 ∧
      step plainWorker t .post = some t' ∧ t'.log.getLast?.bind (·.stamp) = some "0" ∧
      ¬ Stamped plainWorker t .post t') ∧
    ∃ t, Run (step plainWorker) (init [hook] [] 0) slowRetry t ∧ t.clock = 40 ∧
      t.log.countP (·.posts "d2") = 2 ∧ ¬ Spread plainWorker t := by
  constructor
  · have hexec : (exec (step plainWorker) (init [hook] [] 0) slowBatch).map (fun t =>
        (t.clock, (step plainWorker t .post).map fun t' =>
          (t'.log.dropLast == t.log, t'.log.getLast?.bind (·.stamp)))) =
        some (40, some (true, some "0")) := by decide +kernel
    obtain ⟨t, hrun, hend⟩ := run_of_exec_map hexec
    obtain ⟨hclock, hnext⟩ := Prod.mk.inj hend
    obtain ⟨t', hst, hlast⟩ := Option.map_eq_some_iff.mp hnext
    obtain ⟨hlog, hstamp⟩ := Prod.mk.inj hlast
    refine ⟨t, t', hrun, hclock, hst, hstamp, fun hstamped => ?_⟩
    obtain ⟨h, hh, hstamp⟩ := Option.bind_eq_some_iff.mp hstamp
    rw [beq_iff_eq] at hlog
    have happend : t'.log = t.log ++ [h] := by
      rw [← hlog]
      exact (List.dropLast_append_getLast? h hh).symm
    have heq := hstamped.stamp_eq happend hstamp
    rw [hclock] at heq
    revert heq
    decide +kernel
  · have hexec : (exec (step plainWorker) (init [hook] [] 0) slowRetry).map (fun t =>
        (t.clock, t.log.countP (·.posts "d2"), lastPost "d2" t.log.dropLast,
          t.log.dropLast.countP (·.posts "d2"), t.log.getLast?.bind (·.lastPost "d2" none))) =
        some (40, 2, some (40, 0), 1, some (40, 40)) := by decide +kernel
    obtain ⟨t, hrun, hend⟩ := run_of_exec_map hexec
    simp only [Prod.mk.injEq] at hend
    obtain ⟨hclock, hposts, hfirst, hone, hlast⟩ := hend
    refine ⟨t, hrun, hclock, hposts, fun hspread => ?_⟩
    obtain ⟨h, hh, hbegun⟩ := Option.bind_eq_some_iff.mp hlast
    obtain ⟨d, p, there, rfl, hid⟩ := Happening.eq_posted_of_lastPost hbegun
    obtain ⟨delay, hdelay, hle⟩ :=
      hspread t.log.dropLast _ [] (List.dropLast_append_getLast? _ hh).symm
      40 0 (by rw [hid]; exact hfirst)
    rw [hid, hone, show plainWorker.schedule[min (1 - 1) (plainWorker.schedule.length - 1)]? =
      some 30 by
      decide +kernel, Option.some_inj] at hdelay
    rw [← hdelay] at hle
    norm_num at hle

end DeliveryState
end InferenceEngine
