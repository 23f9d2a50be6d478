import InferenceEngine.Lib.Count
import InferenceEngine.Billing.DeliveryLoop

/-!
# Billing.DeliveryRuns

How often a delivery is posted, and how it comes to its end, over every run of the worker: polls,
restarts, stops, endpoints that are disabled or deleted at any time, and replies of any kind. The
attempts of a delivery are counted in its row, while what an attempt decides it decides by the row
that the batch has claimed; without replays the two agree (`Inv.claimed`). The endpoint is read
before the POST is started, and may be gone by then (`Aimed`).

* `Bounded`: what is said of the log and the rows.
* `bounded_of_orderly`: it holds throughout every run in which no POST raises, and no endpoint is
  withdrawn from an attempt that has found it and has not posted.
* `raised_posts_again`: a POST that raises is not counted.
* `disabled_posted`: an endpoint is posted to after it was disabled.
-/

namespace InferenceEngine

open Lts DeliveryWorker

namespace Happening

/-- The delivery it is about. -/
def deliveryId : Happening → String
  | .began d _ => d.id
  | .posted d _ _ _ _ => d.id
  | .ended a _ _ _ => a.delivery.id
  | .replayed id _ => id

/-- A POST of the delivery was started. -/
def posts (id : String) : Happening → Bool
  | .posted d _ _ _ _ => d.id == id
  | _ => false

/-- A POST of the delivery has failed. -/
def fails (id : String) : Happening → Bool
  | .ended a opened _ _ => a.delivery.id == id && a.stage.isPost && !accepted opened
  | _ => false

/-- A POST of the delivery got a 2xx reply. -/
def succeeds (id : String) : Happening → Bool
  | .ended a opened _ _ => a.delivery.id == id && a.stage.isPost && accepted opened
  | _ => false

/-- The delivery was recorded as succeeded or dead. -/
def settles (id : String) : Happening → Bool
  | .ended a _ _ (some oc) => a.delivery.id == id && oc.status ≠ .pending
  | _ => false

section

variable (id : String) (d : Delivery) (p : Posted) (begun reading : ℚ) (there : Option Endpoint)

@[simp] theorem posts_posted : (posted d p begun reading there).posts id = (d.id == id) := rfl

@[simp] theorem fails_posted : (posted d p begun reading there).fails id = false := rfl

@[simp] theorem succeeds_posted : (posted d p begun reading there).succeeds id = false := rfl

variable (a : Attempt) (opened : Opened) (now : ℚ) (written : Option WebhookStore.Outcome)

@[simp] theorem posts_ended : (ended a opened now written).posts id = false := rfl

@[simp] theorem fails_ended : (ended a opened now written).fails id =
    (a.delivery.id == id && a.stage.isPost && !accepted opened) := rfl

@[simp] theorem succeeds_ended : (ended a opened now written).succeeds id =
    (a.delivery.id == id && a.stage.isPost && accepted opened) := rfl

end

variable {h : Happening} {id : String}

/-- What happens to one delivery is no POST, reply or end of another. -/
theorem of_other (hid : h.deliveryId ≠ id) :
    h.posts id = false ∧ h.fails id = false ∧ h.succeeds id = false ∧ h.settles id = false := by
  cases h with
  | began d found => exact ⟨rfl, rfl, rfl, rfl⟩
  | posted d p begun reading there =>
    have hne : d.id ≠ id := hid
    simp [posts, fails, succeeds, settles, hne]
  | ended a opened now oc =>
    have hne : a.delivery.id ≠ id := hid
    cases oc with
    | none => simp [posts, fails, succeeds, settles, hne]
    | some oc => simp [posts, fails, succeeds, settles, hne]
  | replayed id' now => exact ⟨rfl, rfl, rfl, rfl⟩

end Happening

/-- What was found is no endpoint to send to. -/
def DeliveryWorker.Unfit (w : DeliveryWorker) (found : Option Endpoint) : Prop :=
  ∀ e, found = some e → e.disabled = true ∨ w.hostIsAscii e.url = false

/-- The n-th retry is put off by the n-th entry of the schedule, the last one repeating. -/
def DeliveryWorker.Scheduled (w : DeliveryWorker) (past : List Happening) : Happening → Prop
  | .ended a _ now (some oc) => oc.status = .pending →
    ∃ delay, w.schedule[min (past.countP (·.fails a.delivery.id)) (w.schedule.length - 1)]? =
      some delay ∧ oc.nextAttemptAt = some (now + delay)
  | _ => True

namespace DeliveryState

variable (w : DeliveryWorker)

structure Bounded (s : DeliveryState) : Prop where
  posts : ∀ id, s.log.countP (·.posts id) ≤ w.limit
  /-- no POST after the end -/
  finality : s.log.Pairwise fun a b => ∀ id, a.settles id = true → b.posts id = false
  target : ∀ d p begun reading there, .posted d p begun reading there ∈ s.log →
    ∃ e, there = some e ∧ e.disabled = false ∧ w.hostIsAscii e.url = true ∧ p.url = e.url
  succeeded : ∀ d ∈ s.store.deliveries, d.status = .succeeded → ∃ h ∈ s.log, h.succeeds d.id = true
  dead : ∀ d ∈ s.store.deliveries, d.status = .dead → s.log.countP (·.fails d.id) = w.limit ∨
    ∃ d' found, .began d' found ∈ s.log ∧ d'.id = d.id ∧ w.Unfit found
  retries : ∀ past h rest, s.log = past ++ h :: rest → w.Scheduled past h

/-- A POST is under way. -/
def posting (s : DeliveryState) : Bool :=
  s.batch.any fun b => b.current.any fun a => a.stage.isPost

/-- No replay, and no POST that raises what the transport does not know. -/
def counted (s : DeliveryState) : DeliveryLabel → Bool
  | .replay _ => false
  | .finish (.raised _) => !s.posting
  | _ => true

/-- No endpoint is disabled or deleted between the reading of it and the start of the POST. -/
def aimed (s : DeliveryState) (l : DeliveryLabel) : Bool :=
  s.batch.all fun b => b.current.all fun a => a.stage.endpoint?.all fun e => !l.withdraws e.id

def orderly (s : DeliveryState) (l : DeliveryLabel) : Bool := s.counted l && s.aimed l

/-- Nothing was enqueued yet. -/
def init (endpoints : List Endpoint) (secrets : List WebhookSecret) (clock : ℚ) :
    DeliveryState where
  store := { endpoints := endpoints, secrets := secrets, deliveries := [], ids := List.nodup_nil }
  clock := clock

/-- A delivery that is not at its end: its attempts are the POSTs that have failed, and there is one
left. -/
structure Open (log : List Happening) (d : Delivery) : Prop where
  pending : d.status = .pending
  attempts : d.attempts = log.countP (·.fails d.id)
  left : d.attempts < w.limit
  unsettled : ∀ h ∈ log, h.settles d.id = false

/-- A POST of the delivery is under way. -/
def underWay (s : DeliveryState) (id : String) : Nat :=
  match s.batch with
  | some ⟨_, _, some a⟩ => if a.delivery.id == id && a.stage.isPost then 1 else 0
  | _ => 0

/-- The endpoint of the attempt in progress has an ASCII host, and a refusal is in the log. -/
structure Attempting (log : List Happening) (a : Attempt) : Prop where
  endpoint : ∀ e ∈ a.stage.endpoint?, w.hostIsAscii e.url = true
  url : ∀ p begun, a.stage = .posting p begun → w.hostIsAscii p.url = true
  refused : ∀ error, a.stage = .refused error → ∃ found,
    .began a.delivery found ∈ log ∧ w.Unfit found

/-- All of `Bounded` but the endpoints, with what the next step needs. -/
structure Inv (s : DeliveryState) : Prop where
  posts : ∀ id, s.log.countP (·.posts id) ≤ w.limit
  finality : s.log.Pairwise fun a b => ∀ id, a.settles id = true → b.posts id = false
  succeeded : ∀ d ∈ s.store.deliveries, d.status = .succeeded → ∃ h ∈ s.log, h.succeeds d.id = true
  dead : ∀ d ∈ s.store.deliveries, d.status = .dead → s.log.countP (·.fails d.id) = w.limit ∨
    ∃ d' found, .began d' found ∈ s.log ∧ d'.id = d.id ∧ w.Unfit found
  retries : ∀ past h rest, s.log = past ++ h :: rest → w.Scheduled past h
  rows : ∀ d ∈ s.store.deliveries, d.status = .pending → Open w s.log d
  claimed : ∀ d ∈ s.claimed, Open w s.log d ∧ ∀ row ∈ s.store.deliveries, row.id = d.id → row = d
  claims : (s.claimed.map (·.id)).Nodup
  attempt : ∀ b ∈ s.batch, ∀ a ∈ b.current, Attempting w s.log a
  books : ∀ id, s.log.countP (·.posts id) =
    s.log.countP (·.fails id) + s.log.countP (·.succeeds id) + s.underWay id
  /-- a 2xx reply is the end -/
  told : ∀ h ∈ s.log, ∀ id, h.succeeds id = true → h.settles id = true
  issued : (∀ d ∈ s.store.deliveries, d.id ∈ s.issued) ∧ (∀ d ∈ s.claimed, d.id ∈ s.issued) ∧
    ∀ h ∈ s.log, h.deliveryId ∈ s.issued

variable {w} {s s' : DeliveryState} {l : DeliveryLabel}

theorem init_inv (endpoints : List Endpoint) (secrets : List WebhookSecret) (clock : ℚ) :
    Inv w (init endpoints secrets clock) where
  posts := by simp [init]
  finality := by simp [init]
  succeeded := by simp [init]
  dead := by simp [init]
  retries := by simp [init]
  rows := by simp [init]
  claimed := by simp [init, DeliveryState.claimed]
  claims := by simp [init, DeliveryState.claimed]
  attempt := by simp [init]
  books := by simp [init, underWay]
  told := by simp [init]
  issued := by simp [init, DeliveryState.claimed]

/-! ## A log that grows -/

/-- What holds of every entry and what came before it, after one more entry. -/
theorem split_concat {α : Type} {P : List α → α → Prop} {l : List α} {x : α}
    (hl : ∀ past h rest, l = past ++ h :: rest → P past h) (hx : P l x) :
    ∀ past h rest, l ++ [x] = past ++ h :: rest → P past h := by
  intro past h rest heq
  rcases List.eq_nil_or_concat rest with rfl | ⟨rest', y, rfl⟩
  · obtain ⟨rfl, hxh⟩ := List.append_inj' heq rfl
    rw [List.singleton_inj] at hxh
    rw [← hxh]
    exact hx
  · rw [List.concat_eq_append, ← List.cons_append, ← List.append_assoc] at heq
    exact hl past h rest' (List.append_inj' heq rfl).1

variable {log : List Happening} {h : Happening} {d : Delivery}

theorem Open.append (hd : Open w log d) (hfails : h.fails d.id = false)
    (hsettles : h.settles d.id = false) : Open w (log ++ [h]) d where
  pending := hd.pending
  attempts := by
    rw [List.countP_append, hd.attempts]
    simp [hfails]
  left := hd.left
  unsettled := by
    intro h' hh'
    rcases List.mem_append.mp hh' with hh' | hh'
    · exact hd.unsettled h' hh'
    · rw [List.mem_singleton.mp hh']
      exact hsettles

theorem Open.no_success (hd : Open w log d)
    (htold : ∀ h ∈ log, ∀ id, h.succeeds id = true → h.settles id = true) :
    log.countP (·.succeeds d.id) = 0 := by
  rw [List.countP_eq_zero]
  intro h hh hsucceeds
  have hsettles := htold h hh d.id hsucceeds
  rw [hd.unsettled h hh] at hsettles
  cases hsettles

/-! ## The steps that do not attempt anything -/

theorem Inv.other (hs : Inv w s) (hrows : s'.store.deliveries.Sublist s.store.deliveries)
    (hbatch : s'.batch = s.batch) (hlog : s'.log = s.log) (hissued : s'.issued = s.issued) :
    Inv w s' := by
  have hclaimed : s'.claimed = s.claimed := by
    unfold DeliveryState.claimed
    rw [hbatch]
  have hunder : s'.underWay = s.underWay := by
    unfold underWay
    rw [hbatch]
  constructor
  case posts => rw [hlog]; exact hs.posts
  case finality => rw [hlog]; exact hs.finality
  case succeeded => rw [hlog]; exact fun d hd => hs.succeeded d (hrows.subset hd)
  case dead => rw [hlog]; exact fun d hd => hs.dead d (hrows.subset hd)
  case retries => rw [hlog]; exact hs.retries
  case rows => rw [hlog]; exact fun d hd => hs.rows d (hrows.subset hd)
  case claimed =>
    rw [hlog, hclaimed]
    exact fun d hd => ⟨(hs.claimed d hd).1,
      fun row hrow => (hs.claimed d hd).2 row (hrows.subset hrow)⟩
  case claims => rw [hclaimed]; exact hs.claims
  case attempt =>
    rw [hbatch, hlog]
    exact hs.attempt
  case books => rw [hlog, hunder]; exact hs.books
  case told => rw [hlog]; exact hs.told
  case issued =>
    rw [hlog, hissued, hclaimed]
    exact ⟨fun d hd => hs.issued.1 d (hrows.subset hd), hs.issued.2⟩

theorem mem_insertDelivery {store : WebhookStore} {id endpointId payload : String} {now : ℚ}
    {d : Delivery} (hd : d ∈ (store.insertDelivery id endpointId payload now).deliveries) :
    d ∈ store.deliveries ∨ d =
      { id := id, endpointId := endpointId, payload := payload, nextAttemptAt := now,
        updatedAt := now } := by
  unfold WebhookStore.insertDelivery at hd
  split at hd
  · exact .inl hd
  · rcases List.mem_append.mp hd with hd | hd
    · exact .inl hd
    · exact .inr (List.mem_singleton.mp hd)

theorem limit_pos (w : DeliveryWorker) : 0 < w.limit :=
  Nat.lt_of_lt_of_le Nat.one_pos (le_max_left ..)

theorem Inv.enqueue (hs : Inv w s) {id : String} (endpointId payload : String)
    (hnew : id ∉ s.issued) :
    Inv w { s with
      store := s.store.insertDelivery id endpointId payload s.clock
      issued := id :: s.issued } := by
  have hlog : ∀ h ∈ s.log, h.deliveryId ≠ id := by
    rintro h hh rfl
    exact hnew (hs.issued.2.2 h hh)
  refine { hs with succeeded := ?_, dead := ?_, rows := ?_, claimed := ?_, issued := ?_ }
  · intro d hd hstatus
    rcases mem_insertDelivery hd with hd | rfl
    · exact hs.succeeded d hd hstatus
    · cases hstatus
  · intro d hd hstatus
    rcases mem_insertDelivery hd with hd | rfl
    · exact hs.dead d hd hstatus
    · cases hstatus
  · intro d hd hstatus
    rcases mem_insertDelivery hd with hd | rfl
    · exact hs.rows d hd hstatus
    · refine ⟨rfl, ?_, limit_pos w, fun h hh => (Happening.of_other (hlog h hh)).2.2.2⟩
      symm
      rw [List.countP_eq_zero]
      intro h hh
      rw [(Happening.of_other (hlog h hh)).2.1]
      exact Bool.false_ne_true
  · intro d hd
    refine ⟨(hs.claimed d hd).1, fun row hrow hid => ?_⟩
    rcases mem_insertDelivery hrow with hrow | rfl
    · exact (hs.claimed d hd).2 row hrow hid
    · have hid : id = d.id := hid
      rw [hid] at hnew
      exact absurd (hs.issued.2.1 d hd) hnew
  · refine ⟨fun d hd => ?_, fun d hd => ?_, fun h hh => ?_⟩
    · rcases mem_insertDelivery hd with hd | rfl
      · exact List.mem_cons_of_mem id (hs.issued.1 d hd)
      · exact List.mem_cons_self ..
    · exact List.mem_cons_of_mem id (hs.issued.2.1 d hd)
    · exact List.mem_cons_of_mem id (hs.issued.2.2 h hh)

theorem claimDue_pending {store : WebhookStore} {now : ℚ} {limit : Nat}
    (hd : d ∈ store.claimDue now limit) : d.status = .pending ∧ d.nextAttemptAt ≤ now := by
  have hfilter := (List.mem_insertionSort _).mp (List.mem_of_mem_take hd)
  simpa using (List.mem_filter.mp hfilter).2

theorem Inv.poll (hs : Inv w s) (hidle : s.batch = none) :
    Inv w { s with batch := some ⟨s.clock, s.store.claimDue s.clock w.batchLimit, none⟩ } := by
  refine { hs with claimed := ?_, claims := ?_, attempt := ?_, books := ?_, issued := ?_ }
  · intro d hd
    have hrow := mem_claimDue hd
    exact ⟨hs.rows d hrow (claimDue_pending hd).1, fun row h hid => eq_of_id s.store h hrow hid⟩
  · exact claimDue_ids ..
  · intro b hb a ha
    cases hb
    cases ha
  · intro id
    have hbooks := hs.books id
    unfold underWay at hbooks ⊢
    rw [hidle] at hbooks
    exact hbooks
  · exact ⟨hs.issued.1, fun d hd => hs.issued.1 d (mem_claimDue hd), hs.issued.2.2⟩

theorem Inv.leave (hs : Inv w s) {now : ℚ} {due : List Delivery}
    (hbatch : s.batch = some ⟨now, due, none⟩) : Inv w { s with batch := none } := by
  refine { hs with claimed := ?_, claims := ?_, attempt := ?_, books := ?_, issued := ?_ }
  · intro d hd
    cases hd
  · exact List.nodup_nil
  · intro b hb
    cases hb
  · intro id
    have hbooks := hs.books id
    unfold underWay at hbooks ⊢
    rw [hbatch] at hbooks
    exact hbooks
  · exact ⟨hs.issued.1, fun d hd => (List.not_mem_nil hd).elim, hs.issued.2.2⟩

/-! ## An attempt -/

/-- What an open delivery has been posted when no POST of it is under way. -/
theorem Inv.posts_open (hs : Inv w s) (hd : Open w s.log d) (hunder : s.underWay d.id = 0) :
    s.log.countP (·.posts d.id) = d.attempts := by
  rw [hs.books, hd.no_success hs.told, hunder, hd.attempts]
  omega

/-- The worker has come to a delivery. Nothing is counted yet. -/
theorem Inv.start (hs : Inv w s) {now : ℚ} {due : List Delivery}
    (hbatch : s.batch = some ⟨now, d :: due, none⟩) :
    Inv w { s with
      batch := some ⟨now, due, some ⟨d, s.seen w d⟩⟩
      log := s.log ++ [.began d (s.store.getEndpoint d.endpointId)] } := by
  have hclaimed : s.claimed = d :: due := by
    unfold DeliveryState.claimed
    rw [hbatch]
    rfl
  have hidle : ∀ id, s.underWay id = 0 := by
    intro id
    unfold underWay
    rw [hbatch]
  have hseen : (s.seen w d).isPost = false := by
    unfold seen
    split <;> rfl
  have hgrown : ∀ d' ∈ s.claimed,
      Open w (s.log ++ [.began d (s.store.getEndpoint d.endpointId)]) d' :=
    fun d' hd' => (hs.claimed d' hd').1.append rfl rfl
  constructor
  case posts =>
    intro id
    rw [List.countP_append]
    exact hs.posts id
  case finality =>
    rw [List.pairwise_append]
    refine ⟨hs.finality, List.pairwise_singleton .., fun a _ b hb id _ => ?_⟩
    rw [List.mem_singleton.mp hb]
    rfl
  case succeeded =>
    intro d' hd' hstatus
    obtain ⟨h, hh, hsucceeds⟩ := hs.succeeded d' hd' hstatus
    exact ⟨h, List.mem_append_left _ hh, hsucceeds⟩
  case dead =>
    intro d' hd' hstatus
    rw [List.countP_append]
    rcases hs.dead d' hd' hstatus with hfails | ⟨d'', found, hmem, hunfit⟩
    · exact .inl hfails
    · exact .inr ⟨d'', found, List.mem_append_left _ hmem, hunfit⟩
  case retries => exact split_concat hs.retries trivial
  case rows => exact fun d' hd' hstatus => (hs.rows d' hd' hstatus).append rfl rfl
  case claimed =>
    intro d' hd'
    have hd' : d' ∈ s.claimed := by rwa [hclaimed]
    exact ⟨hgrown d' hd', (hs.claimed d' hd').2⟩
  case claims =>
    have hclaims := hs.claims
    rwa [hclaimed] at hclaims
  case attempt =>
    intro b hb a ha
    cases hb
    cases ha
    rcases w.look_cases d s.store with ⟨error, hlook, hunfit⟩ | ⟨e, hlook, -, -, hascii⟩
    · refine ⟨fun e he => ?_, fun p begun h => ?_,
        fun _ _ => ⟨_, List.mem_append_right _ (List.mem_singleton_self _), hunfit⟩⟩
      · simp [seen, hlook, Stage.endpoint?] at he
      · simp [seen, hlook] at h
    · refine ⟨fun e' he => ?_, fun p begun h => ?_, fun error h => ?_⟩
      · simp only [seen, hlook, Stage.endpoint?, Option.mem_some_iff] at he
        rw [← he]
        exact hascii
      · simp [seen, hlook] at h
      · simp [seen, hlook] at h
  case books =>
    intro id
    have hbooks := hs.books id
    rw [hidle] at hbooks
    simp only [List.countP_append, hbooks, underWay, hseen, Bool.and_false,
      Bool.false_eq_true, if_false]
    rfl
  case told =>
    intro h hh id hsucceeds
    rcases List.mem_append.mp hh with hh | hh
    · exact hs.told h hh id hsucceeds
    · rw [List.mem_singleton.mp hh] at hsucceeds
      cases hsucceeds
  case issued =>
    have hissued := hs.issued
    rw [hclaimed] at hissued
    refine ⟨hissued.1, hissued.2.1, fun h hh => ?_⟩
    rcases List.mem_append.mp hh with hh | hh
    · exact hissued.2.2 h hh
    · rw [List.mem_singleton.mp hh]
      exact hissued.2.1 d (List.mem_cons_self ..)

theorem Inv.sign (hs : Inv w s) {now : ℚ} {due : List Delivery} {endpoint : Endpoint}
    (hbatch : s.batch = some ⟨now, due, some ⟨d, .found endpoint⟩⟩) (secrets : List String) :
    Inv w { s with batch := some ⟨now, due, some ⟨d, .signed endpoint secrets⟩⟩ } := by
  have hclaimed : s.claimed = d :: due := by
    unfold DeliveryState.claimed
    rw [hbatch]
    rfl
  have hattempt := hs.attempt _ hbatch _ rfl
  refine { hs with claimed := ?_, claims := ?_, attempt := ?_, books := ?_, issued := ?_ }
  · intro d' hd'
    exact hs.claimed d' (by rw [hclaimed]; exact hd')
  · have hclaims := hs.claims
    rwa [hclaimed] at hclaims
  · intro b hb a ha
    cases hb
    cases ha
    exact ⟨hattempt.endpoint, fun _ _ h => (by cases h), fun _ h => (by cases h)⟩
  · intro id
    have hbooks := hs.books id
    simpa [underWay, hbatch, Stage.isPost] using hbooks
  · have hissued := hs.issued
    rw [hclaimed] at hissued
    exact hissued

/-- A POST is started. Its delivery is open, so there was an attempt left. -/
theorem Inv.post (hs : Inv w s) {now : ℚ} {due : List Delivery} {endpoint : Endpoint}
    {secrets : List String} (hbatch : s.batch = some ⟨now, due,
      some ⟨d, .signed endpoint secrets⟩⟩) (there : Option Endpoint) :
    Inv w { s with
      batch := some ⟨now, due, some ⟨d, .posting (w.request now d endpoint secrets) s.clock⟩⟩
      log := s.log ++ [.posted d (w.request now d endpoint secrets) s.clock now there] } := by
  have hclaimed : s.claimed = d :: due := by
    unfold DeliveryState.claimed
    rw [hbatch]
    rfl
  have hidle : ∀ id, s.underWay id = 0 := by
    intro id
    simp [underWay, hbatch, Stage.isPost]
  have hopen : Open w s.log d := (hs.claimed d (by rw [hclaimed]; exact List.mem_cons_self ..)).1
  have hattempt := hs.attempt _ hbatch _ rfl
  generalize hrequest : w.request now d endpoint secrets = request
  have hposts : ∀ id, Happening.posts id (.posted d request s.clock now there) =
      true → id = d.id := by
    intro id hp
    exact (beq_iff_eq.mp hp).symm
  constructor
  case posts =>
    intro id
    rw [List.countP_append, List.countP_singleton]
    split
    · rename_i hp
      rw [hposts id hp, hs.posts_open hopen (hidle _)]
      exact hopen.left
    · exact hs.posts id
  case finality =>
    rw [List.pairwise_append]
    refine ⟨hs.finality, List.pairwise_singleton .., fun a ha b hb id hsettles => ?_⟩
    rw [List.mem_singleton.mp hb]
    by_contra hp
    rw [hposts id (by simpa using hp), hopen.unsettled a ha] at hsettles
    cases hsettles
  case succeeded =>
    intro d' hd' hstatus
    obtain ⟨h, hh, hsucceeds⟩ := hs.succeeded d' hd' hstatus
    exact ⟨h, List.mem_append_left _ hh, hsucceeds⟩
  case dead =>
    intro d' hd' hstatus
    rw [List.countP_append]
    rcases hs.dead d' hd' hstatus with hfails | ⟨d'', found, hmem, hunfit⟩
    · exact .inl hfails
    · exact .inr ⟨d'', found, List.mem_append_left _ hmem, hunfit⟩
  case retries => exact split_concat hs.retries trivial
  case rows => exact fun d' hd' hstatus => (hs.rows d' hd' hstatus).append rfl rfl
  case claimed =>
    intro d' hd'
    have hd' : d' ∈ s.claimed := by rwa [hclaimed]
    exact ⟨(hs.claimed d' hd').1.append rfl rfl, (hs.claimed d' hd').2⟩
  case claims =>
    have hclaims := hs.claims
    rwa [hclaimed] at hclaims
  case attempt =>
    intro b hb a ha
    cases hb
    cases ha
    refine ⟨fun e he => (by cases he), fun p begun h => ?_, fun _ h => (by cases h)⟩
    cases h
    rw [← hrequest]
    exact hattempt.endpoint endpoint rfl
  case books =>
    intro id
    have hbooks := hs.books id
    rw [hidle] at hbooks
    simp only [List.countP_append, List.countP_singleton, hbooks, underWay, Happening.posts_posted,
      Happening.fails_posted, Happening.succeeds_posted, Bool.false_eq_true, if_false, Nat.add_zero]
    simp [Stage.isPost]
  case told =>
    intro h hh id hsucceeds
    rcases List.mem_append.mp hh with hh | hh
    · exact hs.told h hh id hsucceeds
    · rw [List.mem_singleton.mp hh] at hsucceeds
      cases hsucceeds
  case issued =>
    have hissued := hs.issued
    rw [hclaimed] at hissued
    refine ⟨hissued.1, hissued.2.1, fun h hh => ?_⟩
    rcases List.mem_append.mp hh with hh | hh
    · exact hissued.2.2 h hh
    · rw [List.mem_singleton.mp hh]
      exact hissued.2.1 d (List.mem_cons_self ..)

theorem schedule_ne_nil (w : DeliveryWorker) : w.schedule ≠ [] := by
  unfold schedule
  split
  · exact List.cons_ne_nil _ _
  · rename_i hne
    simpa using hne

/-- The delay after a number of attempts is an entry of the schedule. -/
theorem nextDelay_eq (w : DeliveryWorker) (n : Nat) :
    w.schedule[min n (w.schedule.length - 1)]? = some (nextDelay (n + 1) w.schedule) := by
  have hpos : 0 < w.schedule.length := List.length_pos_of_ne_nil (schedule_ne_nil w)
  have hlt : min n (w.schedule.length - 1) < w.schedule.length := by omega
  unfold nextDelay
  rw [Nat.add_sub_cancel, List.getElem?_eq_getElem hlt]
  rfl

inductive Written (w : DeliveryWorker) (log : List Happening) (a : Attempt) (opened : Opened)
    (now : ℚ) (oc : WebhookStore.Outcome) : Prop where
  | refused (hpost : a.stage.isPost = false) (hstatus : oc.status = .dead)
      (hunfit : ∃ found, .began a.delivery found ∈ log ∧ w.Unfit found)
  | succeeded (hpost : a.stage.isPost = true) (hreply : accepted opened = true)
      (hstatus : oc.status = .succeeded)
  | dead (hpost : a.stage.isPost = true) (hreply : accepted opened = false)
      (hlast : w.limit ≤ a.delivery.attempts + 1) (hstatus : oc.status = .dead)
  | retry (hpost : a.stage.isPost = true) (hreply : accepted opened = false)
      (hmore : a.delivery.attempts + 1 < w.limit) (hstatus : oc.status = .pending)
      (hinc : oc.attemptsInc = true)
      (hnext : oc.nextAttemptAt = some (now + nextDelay (a.delivery.attempts + 1) w.schedule))

theorem Inv.written (hs : Inv w s) {now : ℚ} {due : List Delivery} {a : Attempt} {opened : Opened}
    {oc : WebhookStore.Outcome} (hbatch : s.batch = some ⟨now, due, some a⟩)
    (hverdict : w.verdict opened now a = some (.ok oc)) : Written w s.log a opened now oc := by
  obtain ⟨-, hascii, hrefused⟩ := hs.attempt _ hbatch a rfl
  unfold DeliveryWorker.verdict at hverdict
  cases hstage : a.stage with
  | refused error =>
    rw [hstage] at hverdict
    cases hverdict
    exact .refused (by rw [hstage]; rfl) rfl (hrefused error hstage)
  | found endpoint | signed endpoint secrets =>
    rw [hstage] at hverdict
    cases hverdict
  | posting p begun =>
    have hpost : a.stage.isPost = true := by rw [hstage]; rfl
    rw [hstage, Option.some_inj] at hverdict
    rcases reply_cases w (hascii p begun hstage) opened now a.delivery with
      ⟨e, -, herror⟩ | ⟨-, ⟨hreply, code, hok⟩ | ⟨hreply, code, error, hok⟩⟩
    · rw [herror] at hverdict
      cases hverdict
    · rw [hok] at hverdict
      cases hverdict
      exact .succeeded hpost hreply rfl
    · rw [hok, Except.ok.injEq] at hverdict
      unfold DeliveryWorker.failure at hverdict
      split at hverdict
      · rename_i hlast
        subst hverdict
        exact .dead hpost hreply hlast rfl
      · rename_i hmore
        subst hverdict
        exact .retry hpost hreply (Nat.not_le.mp hmore) rfl rfl rfl

theorem Inv.mem_updated (hs : Inv w s) {now : ℚ} {oc : WebhookStore.Outcome} {row : Delivery}
    (hd : d ∈ s.claimed) (hrow : row ∈ (s.store.update d.id oc now).deliveries) :
    row = oc.set now d ∨ row ∈ s.store.deliveries ∧ row.id ≠ d.id := by
  obtain ⟨row₀, hrow₀, ⟨hid, rfl⟩ | ⟨hid, rfl⟩⟩ := Table.mem_update hrow
  · rw [(hs.claimed d hd).2 row₀ hrow₀ (by simpa using hid)]
    exact .inl rfl
  · exact .inr ⟨hrow₀, by simpa using hid⟩

theorem one_reply (p reply : Bool) : (if p then 1 else 0) =
    (if p && !reply then 1 else 0) + if p && reply then 1 else 0 := by
  cases p <;> cases reply <;> rfl

/-- The outcome of an attempt is written: the counts of its delivery, and of no other, go up. -/
theorem Inv.record (hs : Inv w s) {now : ℚ} {due : List Delivery} {a : Attempt} {opened : Opened}
    {oc : WebhookStore.Outcome} (hbatch : s.batch = some ⟨now, due, some a⟩)
    (hverdict : w.verdict opened now a = some (.ok oc)) :
    Inv w { s with
      store := s.store.update a.delivery.id oc now
      batch := some ⟨now, due, none⟩
      log := s.log ++ [.ended a opened now (some oc)] } := by
  have hclaimed : s.claimed = a.delivery :: due := by
    unfold DeliveryState.claimed
    rw [hbatch]
    rfl
  have hmem : a.delivery ∈ s.claimed := by rw [hclaimed]; exact List.mem_cons_self ..
  have hopen := (hs.claimed _ hmem).1
  have hwritten := hs.written hbatch hverdict
  have hother : ∀ {id}, id ≠ a.delivery.id → ∀ h ∈ [Happening.ended a opened now (some oc)],
      h.fails id = false ∧ h.settles id = false := by
    intro id hid h hh
    rw [List.mem_singleton.mp hh]
    obtain ⟨-, hfails, -, hsettles⟩ :=
      Happening.of_other (h := .ended a opened now (some oc)) hid.symm
    exact ⟨hfails, hsettles⟩
  have hsame : ∀ {d : Delivery}, d.id ≠ a.delivery.id → Open w s.log d →
      Open w (s.log ++ [.ended a opened now (some oc)]) d := by
    intro d hid hd
    obtain ⟨hfails, hsettles⟩ := hother hid _ (List.mem_singleton_self _)
    exact hd.append hfails hsettles
  constructor
  case posts =>
    intro id
    rw [List.countP_append]
    exact hs.posts id
  case finality =>
    rw [List.pairwise_append]
    refine ⟨hs.finality, List.pairwise_singleton .., fun h _ b hb id _ => ?_⟩
    rw [List.mem_singleton.mp hb]
    rfl
  case succeeded =>
    intro row hrow hstatus
    rcases hs.mem_updated hmem hrow with rfl | ⟨hrow, -⟩
    · cases hwritten with
      | succeeded hpost hreply _ =>
        refine ⟨_, List.mem_append_right _ (List.mem_singleton_self _), ?_⟩
        simp [WebhookStore.Outcome.set, hpost, hreply]
      | refused _ h _ | dead _ _ _ h | retry _ _ _ h _ _ =>
        rw [show oc.status = .succeeded from hstatus] at h
        cases h
    · obtain ⟨h, hh, hsucceeds⟩ := hs.succeeded row hrow hstatus
      exact ⟨h, List.mem_append_left _ hh, hsucceeds⟩
  case dead =>
    intro row hrow hstatus
    rcases hs.mem_updated hmem hrow with rfl | ⟨hrow, hid⟩
    · cases hwritten with
      | refused _ _ hunfit =>
        obtain ⟨found, hbegan, hunfit⟩ := hunfit
        exact .inr ⟨a.delivery, found, List.mem_append_left _ hbegan, rfl, hunfit⟩
      | dead hpost hreply hlast _ =>
        refine .inl ?_
        have hleft := hopen.left
        rw [List.countP_append, List.countP_singleton]
        simp only [WebhookStore.Outcome.set, Happening.fails_ended, BEq.rfl, hpost, hreply,
          ← hopen.attempts, Bool.not_false, Bool.and_self, if_true]
        omega
      | succeeded _ _ h | retry _ _ _ h _ _ =>
        rw [show oc.status = .dead from hstatus] at h
        cases h
    · rw [List.countP_append, List.countP_singleton,
        (hother hid _ (List.mem_singleton_self _)).1]
      rcases hs.dead row hrow hstatus with hfails | ⟨a', found, hbegan, hunfit⟩
      · exact .inl hfails
      · exact .inr ⟨a', found, List.mem_append_left _ hbegan, hunfit⟩
  case retries =>
    refine split_concat hs.retries fun hstatus => ?_
    rw [← hopen.attempts]
    cases hwritten with
    | retry _ _ _ _ _ hnext => exact ⟨_, nextDelay_eq w _, hnext⟩
    | refused _ h _ | succeeded _ _ h | dead _ _ _ h =>
      rw [hstatus] at h
      cases h
  case rows =>
    intro row hrow hstatus
    rcases hs.mem_updated hmem hrow with rfl | ⟨hrow, hid⟩
    · cases hwritten with
      | retry hpost hreply hmore _ hinc _ =>
        have hattempts : (oc.set now a.delivery).attempts = a.delivery.attempts + 1 := by
          simp [WebhookStore.Outcome.set, hinc]
        refine ⟨hstatus, ?_, by rw [hattempts]; exact hmore, fun h hh => ?_⟩
        · rw [hattempts, List.countP_append, List.countP_singleton]
          simp [WebhookStore.Outcome.set, hpost, hreply, hopen.attempts]
        · rcases List.mem_append.mp hh with hh | hh
          · exact hopen.unsettled h hh
          · rw [List.mem_singleton.mp hh]
            have hstatus : oc.status = .pending := hstatus
            simp [Happening.settles, hstatus]
      | refused _ h _ | succeeded _ _ h | dead _ _ _ h =>
        rw [show oc.status = .pending from hstatus] at h
        cases h
    · exact hsame hid (hs.rows row hrow hstatus)
  case claimed =>
    intro d hd
    have hid : d.id ≠ a.delivery.id := by
      have hclaims := hs.claims
      rw [hclaimed, List.map_cons, List.nodup_cons] at hclaims
      intro heq
      exact hclaims.1 (List.mem_map.mpr ⟨d, hd, heq⟩)
    have hd : d ∈ s.claimed := by rw [hclaimed]; exact List.mem_cons_of_mem _ hd
    refine ⟨hsame hid (hs.claimed d hd).1, fun row hrow hrid => ?_⟩
    rcases hs.mem_updated hmem hrow with rfl | ⟨hrow, -⟩
    · exact absurd hrid.symm hid
    · exact (hs.claimed d hd).2 row hrow hrid
  case claims =>
    have hclaims := hs.claims
    rw [hclaimed] at hclaims
    exact hclaims.of_cons
  case attempt =>
    intro b hb a' ha'
    cases hb
    cases ha'
  case books =>
    intro id
    have hbooks := hs.books id
    have hreply := one_reply (a.delivery.id == id && a.stage.isPost) (accepted opened)
    have hfails : [Happening.ended a opened now (some oc)].countP (·.fails id) =
        if a.delivery.id == id && a.stage.isPost && !accepted opened then 1 else 0 :=
      List.countP_singleton
    have hsucceeds : [Happening.ended a opened now (some oc)].countP (·.succeeds id) =
        if a.delivery.id == id && a.stage.isPost && accepted opened then 1 else 0 :=
      List.countP_singleton
    simp only [underWay, hbatch] at hbooks
    simp only [List.countP_append, hbooks, underWay, hfails, hsucceeds, hreply]
    simp only [List.countP_singleton, Happening.posts_ended, Bool.false_eq_true, if_false]
    omega
  case told =>
    intro h hh id hsucceeds
    rcases List.mem_append.mp hh with hh | hh
    · exact hs.told h hh id hsucceeds
    · rw [List.mem_singleton.mp hh] at hsucceeds ⊢
      simp only [Happening.succeeds_ended, Bool.and_eq_true, beq_iff_eq] at hsucceeds
      cases hwritten with
      | succeeded _ _ hstatus => simp [Happening.settles, hsucceeds.1.1, hstatus]
      | refused hpost _ _ => rw [hsucceeds.1.2] at hpost; cases hpost
      | dead _ hreply _ _ | retry _ hreply _ _ _ _ => rw [hsucceeds.2] at hreply; cases hreply
  case issued =>
    have hissued := hs.issued
    rw [hclaimed] at hissued
    refine ⟨fun row hrow => ?_,
      fun d hd => hissued.2.1 d (List.mem_cons_of_mem _ hd), fun h hh => ?_⟩
    · rcases hs.mem_updated hmem hrow with rfl | ⟨hrow, -⟩
      · exact hissued.2.1 a.delivery (List.mem_cons_self ..)
      · exact hissued.1 row hrow
    · rcases List.mem_append.mp hh with hh | hh
      · exact hissued.2.2 h hh
      · rw [List.mem_singleton.mp hh]
        exact hissued.2.1 _ (List.mem_cons_self ..)

theorem Inv.raised (hs : Inv w s) {now : ℚ} {due : List Delivery} {a : Attempt} {opened : Opened}
    {e : Exc} (hbatch : s.batch = some ⟨now, due, some a⟩)
    (hverdict : w.verdict opened now a = some (.error e)) :
    opened = .raised e ∧ s.posting = true := by
  obtain ⟨-, hascii, -⟩ := hs.attempt _ hbatch a rfl
  unfold DeliveryWorker.verdict at hverdict
  cases hstage : a.stage with
  | refused error | found endpoint | signed endpoint secrets =>
    rw [hstage] at hverdict
    cases hverdict
  | posting p begun =>
    refine ⟨?_, by simp [posting, hbatch, hstage, Stage.isPost]⟩
    rw [hstage, Option.some_inj] at hverdict
    rcases reply_cases w (hascii p begun hstage) opened now a.delivery with
      ⟨e', hopened, herror⟩ | ⟨-, ⟨-, code, hok⟩ | ⟨-, code, error, hok⟩⟩
    · rw [herror] at hverdict
      cases hverdict
      exact hopened
    · rw [hok] at hverdict
      cases hverdict
    · rw [hok] at hverdict
      cases hverdict

theorem step_inv (hs : Inv w s) (hok : s.counted l = true) (hst : step w s l = some s') :
    Inv w s' := by
  cases moves_of_step hst with
  | other _ hrows hbatch hlog hissued => exact hs.other hrows hbatch hlog hissued
  | enqueue id endpointId payload hnew => exact hs.enqueue endpointId payload hnew
  | poll hidle => exact hs.poll hidle
  | leave hbatch => exact hs.leave hbatch
  | start hbatch => exact hs.start hbatch
  | sign hbatch => exact hs.sign hbatch _
  | post hbatch => exact hs.post hbatch _
  | record hbatch hverdict => exact hs.record hbatch hverdict
  | raise hbatch hverdict =>
    obtain ⟨rfl, hposting⟩ := hs.raised hbatch hverdict
    simp [counted, hposting] at hok
  | replay id => cases hok

/-! ## The endpoints -/

/-- The endpoint that is about to be posted to is still as it was found, and every POST went to one
that was there. -/
structure Aimed (w : DeliveryWorker) (s : DeliveryState) : Prop where
  target : ∀ d p begun reading there, .posted d p begun reading there ∈ s.log →
    ∃ e, there = some e ∧ e.disabled = false ∧ w.hostIsAscii e.url = true ∧ p.url = e.url
  current : ∀ b ∈ s.batch, ∀ a ∈ b.current, ∀ e ∈ a.stage.endpoint?,
    s.store.getEndpoint a.delivery.endpointId = some e ∧ e.disabled = false ∧
      w.hostIsAscii e.url = true

theorem init_aimed (endpoints : List Endpoint) (secrets : List WebhookSecret) (clock : ℚ) :
    Aimed w (init endpoints secrets clock) where
  target := by simp [init]
  current := by simp [init]

theorem Aimed.move (hs : Aimed w s)
    (htarget : ∀ d p begun reading there, .posted d p begun reading there ∈ s'.log →
      .posted d p begun reading there ∈ s.log ∨
        ∃ e, there = some e ∧ e.disabled = false ∧ w.hostIsAscii e.url = true ∧ p.url = e.url)
    (hcurrent : ∀ b ∈ s'.batch, ∀ a ∈ b.current, ∀ e ∈ a.stage.endpoint?,
      s'.store.getEndpoint a.delivery.endpointId = some e ∧ e.disabled = false ∧
        w.hostIsAscii e.url = true) : Aimed w s' where
  target d p begun reading there h :=
    (htarget d p begun reading there h).elim (hs.target d p begun reading there) id
  current := hcurrent

theorem mem_concat_of_ne {h x : Happening} {log : List Happening}
    (hmem : h ∈ log ++ [x]) (hne : h ≠ x) :
    h ∈ log :=
  (List.mem_append.mp hmem).resolve_right fun hx => hne (List.mem_singleton.mp hx)

theorem step_aimed (hs : Aimed w s) (hok : s.aimed l = true) (hst : step w s l = some s') :
    Aimed w s' := by
  cases moves_of_step hst with
  | other _ _ hbatch hlog _ hendpoint =>
    constructor
    case target => rw [hlog]; exact hs.target
    case current =>
      rw [hbatch]
      intro b hb a ha e he
      obtain ⟨hfind, henabled, hascii⟩ := hs.current b hb a ha e he
      refine ⟨hendpoint _ e hfind henabled ?_, henabled, hascii⟩
      rw [← WebhookStore.getEndpoint_id hfind]
      have hb : s.batch = some b := hb
      have ha : b.current = some a := ha
      have he : a.stage.endpoint? = some e := he
      simpa [DeliveryState.aimed, hb, ha, he] using hok
  | enqueue id endpointId payload hnew =>
    refine hs.move (fun _ _ _ _ _ h => .inl h) fun b hb a ha e he => ?_
    have hsame : (s.store.insertDelivery id endpointId payload s.clock).endpoints =
        s.store.endpoints := by
      unfold WebhookStore.insertDelivery
      split <;> rfl
    unfold WebhookStore.getEndpoint
    rw [hsame]
    exact hs.current b hb a ha e he
  | poll hidle =>
    refine hs.move (fun _ _ _ _ _ h => .inl h) fun b hb a ha => ?_
    cases hb
    cases ha
  | leave hbatch => exact hs.move (fun _ _ _ _ _ h => .inl h) fun b hb => by cases hb
  | @start now d due hbatch =>
    refine hs.move (fun _ _ _ _ _ h => .inl (mem_concat_of_ne h (by simp))) fun b hb a ha e he => ?_
    cases hb
    cases ha
    rcases w.look_cases d s.store with ⟨error, hlook, -⟩ | ⟨e', hlook, hfind, henabled, hascii⟩
    · simp [seen, hlook, Stage.endpoint?] at he
    · simp only [seen, hlook, Stage.endpoint?, Option.mem_some_iff] at he
      subst he
      exact ⟨hfind, henabled, hascii⟩
  | @sign now d due endpoint hbatch =>
    refine hs.move (fun _ _ _ _ _ h => .inl h) fun b hb a ha => ?_
    cases hb
    cases ha
    exact hs.current _ hbatch ⟨d, .found endpoint⟩ rfl
  | @post now d due endpoint secrets hbatch =>
    obtain ⟨hfind, henabled, hascii⟩ := hs.current _ hbatch _ rfl endpoint rfl
    refine hs.move (fun _ _ _ _ _ h => ?_) fun b hb a ha e he => ?_
    · rcases List.mem_append.mp h with h | h
      · exact .inl h
      · cases List.mem_singleton.mp h
        exact .inr ⟨endpoint, hfind, henabled, hascii, rfl⟩
    · cases hb
      cases ha
      cases he
  | record hbatch hverdict =>
    refine hs.move (fun _ _ _ _ _ h => .inl (mem_concat_of_ne h (by simp))) fun b hb a ha => ?_
    cases hb
    cases ha
  | raise hbatch hverdict =>
    exact hs.move (fun _ _ _ _ _ h => .inl (mem_concat_of_ne h (by simp))) fun b hb => by cases hb
  | replay id =>
    refine hs.move (fun d p begun reading there h => .inl ?_) hs.current
    simp only [DeliveryState.replay] at h
    split at h
    · exact mem_concat_of_ne h (by simp)
    · exact h

theorem Inv.keepsBounds (hs : Inv w s) (haimed : Aimed w s) : Bounded w s :=
  ⟨hs.posts, hs.finality, haimed.target, hs.succeeded, hs.dead, hs.retries⟩

/-- In every run of the worker without replays in which no POST raises and no endpoint is disabled
or deleted between the reading of it and the start of the POST, with any replies and any other
changes of the endpoints: every delivery is posted at most `max_attempts` times, never after its end
and only to an endpoint that is there, enabled and has an ASCII host; it succeeds by a 2xx reply, is
dead after `max_attempts` failed POSTs or for its endpoint, and each retry is put off by its entry
of the schedule. -/
theorem bounded_of_orderly (w : DeliveryWorker) (endpoints : List Endpoint)
    (secrets : List WebhookSecret) (clock : ℚ) {ls : List DeliveryLabel}
    (hok : Guarded (step w) (fun s l => s.orderly l = true) (init endpoints secrets clock) ls) :
    Always (step w) (Bounded w) (init endpoints secrets clock) ls := by
  refine Guarded.always (I := fun s => Inv w s ∧ Aimed w s) (fun s l s' hs hok hst => ?_)
    (fun _ hs => hs.1.keepsBounds hs.2) ⟨init_inv .., init_aimed ..⟩ hok
  obtain ⟨hcounted, haimed⟩ := Bool.and_eq_true_iff.mp hok
  exact ⟨step_inv hs.1 hcounted hst, step_aimed hs.2 haimed hst⟩

def hook : Endpoint := { id := "e1", url := "https://a.example.com" }

/-- A delivery is answered 503, and is delivered in the second attempt. -/
def secondAttempt : List DeliveryLabel :=
  [.enqueue "d1" "e1" "", .poll, .next, .sign, .post, .finish (.httpError 503), .next, .tick 30,
    .poll, .next, .sign, .post, .finish (.response 200), .next]

theorem bounded_secondAttempt :
    Always (step plainWorker) (Bounded plainWorker) (init [hook] [] 0) secondAttempt ∧
      ∃ t, Run (step plainWorker) (init [hook] [] 0) secondAttempt t ∧
        (t.log.countP (·.posts "d1"), t.store.deliveries.map (·.status)) = (2, [.succeeded]) :=
  ⟨bounded_of_orderly plainWorker [hook] [] 0 (by decide +kernel),
    run_of_exec_map (by decide +kernel)⟩

/-- The endpoint answers with something that is not HTTP, and the worker polls again. -/
def raisedTwice : List DeliveryLabel :=
  [.enqueue "d1" "e1" "", .poll, .next, .sign, .post, .finish (.raised (.other "BadStatusLine")),
    .poll, .next, .sign, .post]

/-- One attempt is allowed, and two are made. -/
theorem raised_posts_again :
    ∃ t, Run (step { plainWorker with maxAttempts := 1 }) (init [hook] [] 0) raisedTwice t ∧
      t.log.countP (·.posts "d1") = 2 ∧ ¬ Bounded { plainWorker with maxAttempts := 1 } t := by
  have hexec : (exec (step { plainWorker with maxAttempts := 1 })
      (init [hook] [] 0) raisedTwice).map
      (fun t => t.log.countP (·.posts "d1")) = some 2 := by decide +kernel
  obtain ⟨t, hrun, hposts⟩ := run_of_exec_map hexec
  refine ⟨t, hrun, hposts, fun h => ?_⟩
  have hbound : t.log.countP (·.posts "d1") ≤ 1 := h.posts "d1"
  omega

/-- The operator disables the endpoint while the secrets are read. -/
def disabledMidway : List DeliveryLabel :=
  [.enqueue "d1" "e1" "", .poll, .next, .sign, .setDisabled "e1" true, .post]

theorem disabled_posted :
    ∃ t, Run (step plainWorker) (init [hook] [] 0) disabledMidway t ∧
      t.store.endpoints.map (·.disabled) = [true] ∧ t.log.countP (·.posts "d1") = 1 ∧
      ¬ Bounded plainWorker t := by
  have hexec : (exec (step plainWorker) (init [hook] [] 0) disabledMidway).map (fun t =>
      (t.store.endpoints.map (·.disabled), t.log.countP (·.posts "d1"), t.log.getLast?)) =
      some ([true], 1, some (.posted
        { id := "d1", endpointId := "e1", payload := "", nextAttemptAt := 0, updatedAt := 0 }
        (plainWorker.request 0
          { id := "d1", endpointId := "e1", payload := "", nextAttemptAt := 0, updatedAt := 0 } hook [])
        0 0 (some { hook with disabled := true }))) := by decide +kernel
  obtain ⟨t, hrun, hend⟩ := run_of_exec_map hexec
  obtain ⟨hdisabled, hrest⟩ := Prod.mk.inj hend
  obtain ⟨hposts, hlast⟩ := Prod.mk.inj hrest
  refine ⟨t, hrun, hdisabled, hposts, fun h => ?_⟩
  obtain ⟨e, he, henabled, -⟩ := h.target _ _ _ _ _ (List.mem_of_getLast? hlast)
  cases he
  cases henabled

end DeliveryState
end InferenceEngine
