import Mathlib.Data.List.Induction
import InferenceEngine.Billing.DeliveryRuns

/-!
# Billing.DeliveryReplay

The operator replays deliveries while the worker runs. `replay` resets the row of a delivery in one
statement; the worker writes the outcome of an attempt to the same row by its id, whatever the row
has become since the attempt was begun.

* `awaiting`: when the delivery was replayed, if no attempt of it was begun since.
* `ReplaysKept`: a replayed delivery waits, pending and due, for an attempt that is begun after the
  replay.
* `replays_kept_of_between`: so it is in every run in which no delivery is replayed in the middle of
  an attempt of it; from such a replay the worker goes on to a state where it is not.
-/

namespace InferenceEngine

open Lts DeliveryWorker

/-- What is waiting after one more event. -/
def Happening.awaits (id : String) (before : Option ℚ) : Happening → Option ℚ
  | .replayed id' now => if id' = id then some now else before
  | .began d _ => if d.id = id then none else before
  | .posted _ _ _ _ _ | .ended _ _ _ _ => before

/-- When the delivery was replayed, if no attempt of it was begun since. -/
def awaiting (id : String) (log : List Happening) : Option ℚ :=
  log.foldl (fun before h => h.awaits id before) none

theorem awaiting_concat (id : String) (log : List Happening) (h : Happening) :
    awaiting id (log ++ [h]) = h.awaits id (awaiting id log) := by
  unfold awaiting
  rw [List.foldl_append]
  rfl

namespace DeliveryState

variable (w : DeliveryWorker)

/-- The row is as a replay at the time `t` has left it. -/
def Reset (t : ℚ) (d : Delivery) : Prop :=
  d.status = .pending ∧ d.attempts = 0 ∧ d.nextAttemptAt = t

/-- An attempt of the delivery is in progress. -/
def attempting (s : DeliveryState) (id : String) : Bool :=
  s.batch.any fun b => b.current.any fun a => a.delivery.id = id

structure ReplaysKept (s : DeliveryState) : Prop where
  /-- a replayed delivery stays pending with its attempts cleared -/
  waits : ∀ id t, awaiting id s.log = some t → ∀ d ∈ s.store.deliveries, d.id = id → Reset t d
  /-- and due: a batch that has room for it claims it -/
  due : ∀ id t, awaiting id s.log = some t → ∀ d ∈ s.store.deliveries, d.id = id →
    (s.store.deliveries.countP fun d => d.status = .pending && d.nextAttemptAt ≤ s.clock) ≤
      w.batchLimit → d ∈ s.store.claimDue s.clock w.batchLimit
  /-- no outcome is written but of an attempt that was begun after the last replay -/
  outcomes : ∀ past h rest, s.log = past ++ h :: rest → ∀ a opened now oc,
    h = .ended a opened now (some oc) → awaiting a.delivery.id past = none
  /-- after a replay the delivery waits; or an attempt was begun since, which is in progress, has
  posted it or has found it to be dead -/
  followed : ∀ past h rest, s.log = past ++ h :: rest → ∀ id t, h = .replayed id t →
    (∀ d ∈ s.store.deliveries, d.id = id → ∃ t', awaiting id s.log = some t' ∧ Reset t' d) ∨
      (∃ d found, .began d found ∈ rest ∧ d.id = id) ∧
        (s.attempting id = true ∨
          (∃ d p begun reading there, .posted d p begun reading there ∈ rest ∧ d.id = id) ∨
          ∃ a opened now oc, .ended a opened now (some oc) ∈ rest ∧ a.delivery.id = id ∧
            oc.status = .dead)

/-- No delivery is replayed in the middle of an attempt of it. -/
def between (s : DeliveryState) : DeliveryLabel → Bool
  | .replay id => !s.attempting id
  | _ => true

/-! ## What follows from a log and its rows -/

theorem awaiting_of_replayed {id : String} {t : ℚ} {past : List Happening} :
    ∀ {rest : List Happening}, (∀ d found, .began d found ∈ rest → d.id ≠ id) →
      ∃ t', awaiting id (past ++ .replayed id t :: rest) = some t' := by
  intro rest
  induction rest using List.reverseRecOn with
  | nil =>
    intro _
    refine ⟨t, ?_⟩
    rw [awaiting_concat]
    exact if_pos rfl
  | append_singleton rest h ih =>
    intro hrest
    obtain ⟨t', ht'⟩ := ih fun a found ha => hrest a found (List.mem_append_left _ ha)
    rw [← List.cons_append, ← List.append_assoc, awaiting_concat, ht']
    cases h with
    | replayed id' now =>
      by_cases hid : id' = id
      · exact ⟨now, if_pos hid⟩
      · exact ⟨t', if_neg hid⟩
    | began d found =>
      have hne : d.id ≠ id := hrest d found (List.mem_append_right _ (List.mem_singleton_self _))
      exact ⟨t', if_neg hne⟩
    | posted _ _ _ _ _ | ended _ _ _ _ => exact ⟨t', rfl⟩

theorem mem_claimDue_of_room {store : WebhookStore} {now : ℚ} {limit : Nat} {d : Delivery}
    (hd : d ∈ store.deliveries) (hpending : d.status = .pending) (hdue : d.nextAttemptAt ≤ now)
    (hroom : (store.deliveries.countP fun d => d.status =
      .pending && d.nextAttemptAt ≤ now) ≤ limit) :
    d ∈ store.claimDue now limit := by
  unfold WebhookStore.claimDue
  rw [List.take_of_length_le]
  · rw [List.mem_insertionSort, List.mem_filter]
    exact ⟨hd, by simp [hpending, hdue]⟩
  · rw [List.length_insertionSort, ← List.countP_eq_length_filter]
    exact hroom

/-- An attempt of the delivery has posted it or found it to be dead, or has still to come to
that. -/
def Handled (s : DeliveryState) (id : String) (rest : List Happening) : Prop :=
  (∃ b ∈ s.batch, ∃ a ∈ b.current, a.delivery.id = id ∧ a.stage.isPost = false) ∨
    (∃ d p begun reading there, .posted d p begun reading there ∈ rest ∧ d.id = id) ∨
    ∃ a opened now oc, .ended a opened now (some oc) ∈ rest ∧ a.delivery.id = id ∧ oc.status = .dead

structure ReplayInv (s : DeliveryState) : Prop where
  waits : ∀ id t, awaiting id s.log = some t →
    t ≤ s.clock ∧ ∀ d ∈ s.store.deliveries, d.id = id → Reset t d
  outcomes : ∀ past h rest, s.log = past ++ h :: rest → ∀ a opened now oc,
    h = .ended a opened now (some oc) → awaiting a.delivery.id past = none
  /-- the attempt in progress was begun after the last replay -/
  calm : ∀ b ∈ s.batch, ∀ a ∈ b.current, awaiting a.delivery.id s.log = none
  handled : ∀ past h rest, s.log = past ++ h :: rest → ∀ d found, h = .began d found →
    s.Handled d.id rest
  issued : (∀ d ∈ s.store.deliveries, d.id ∈ s.issued) ∧ (∀ d ∈ s.claimed, d.id ∈ s.issued) ∧
    ∀ h ∈ s.log, h.deliveryId ∈ s.issued

variable {w} {s s' : DeliveryState} {l : DeliveryLabel}

/-- What is handled stays so after one more event, if the attempt in progress goes on or this is its
end. -/
theorem Handled.append {id : String} {rest : List Happening} (h : s.Handled id rest) {x : Happening}
    (hcurrent : ∀ b ∈ s.batch, ∀ a ∈ b.current, a.delivery.id = id → a.stage.isPost = false →
      s'.Handled id (rest ++ [x])) : s'.Handled id (rest ++ [x]) := by
  rcases h with ⟨b, hb, a, ha, hid, hstage⟩ | ⟨d, p, begun, reading, there, hmem, hid⟩ |
    ⟨a, opened, now, oc, hmem, hid, hdead⟩
  · exact hcurrent b hb a ha hid hstage
  · exact .inr (.inl ⟨d, p, begun, reading, there, List.mem_append_left _ hmem, hid⟩)
  · exact .inr (.inr ⟨a, opened, now, oc, List.mem_append_left _ hmem, hid, hdead⟩)

theorem Handled.congr {id : String} {rest : List Happening} (h : s.Handled id rest)
    (hcurrent : ∀ b ∈ s.batch, ∀ a ∈ b.current, a.delivery.id = id → a.stage.isPost = false →
      s'.Handled id rest) : s'.Handled id rest := by
  rcases h with ⟨b, hb, a, ha, hid, hstage⟩ | hrest
  · exact hcurrent b hb a ha hid hstage
  · exact .inr hrest

theorem ReplayInv.kept (hs : ReplayInv s) : ReplaysKept w s where
  waits id t ht := (hs.waits id t ht).2
  due id t ht d hd hid hroom := by
    obtain ⟨hclock, hreset⟩ := hs.waits id t ht
    obtain ⟨hpending, -, hnext⟩ := hreset d hd hid
    refine mem_claimDue_of_room hd hpending ?_ hroom
    rw [hnext]
    exact hclock
  outcomes := hs.outcomes
  followed := by
    rintro past h rest hlog id t rfl
    by_cases hbegan : ∃ d found, .began d found ∈ rest ∧ d.id = id
    · refine .inr ⟨hbegan, ?_⟩
      obtain ⟨d, found, hmem, rfl⟩ := hbegan
      obtain ⟨before, after, rfl⟩ := List.append_of_mem hmem
      have hsplit : s.log = (past ++ .replayed d.id t :: before) ++ .began d found :: after := by
        rw [hlog, List.append_assoc, List.cons_append]
      have hafter : ∀ h ∈ after, h ∈ before ++ .began d found :: after :=
        fun h hh => List.mem_append_right _ (List.mem_cons_of_mem _ hh)
      rcases hs.handled _ _ after hsplit d found rfl with ⟨b, hb, a, ha, hid, -⟩ |
        ⟨d', p, begun, reading, there, hmem', hid⟩ | ⟨a, opened, now, oc, hmem', hid, hdead⟩
      · refine .inl ?_
        have hb : s.batch = some b := hb
        have ha : b.current = some a := ha
        simp [attempting, hb, ha, hid]
      · exact .inr (.inl ⟨d', p, begun, reading, there, hafter _ hmem', hid⟩)
      · exact .inr (.inr ⟨a, opened, now, oc, hafter _ hmem', hid, hdead⟩)
    · refine .inl fun d hd hid => ?_
      have hwaiting : ∃ t', awaiting id (past ++ .replayed id t :: rest) = some t' :=
        awaiting_of_replayed fun d found hd heq => hbegan ⟨d, found, hd, heq⟩
      rw [← hlog] at hwaiting
      obtain ⟨t', ht'⟩ := hwaiting
      exact ⟨t', ht', (hs.waits id t' ht').2 d hd hid⟩

/-- What holds of every entry and what came after it, after one more entry. -/
theorem split_grow {α : Type} {P Q : α → List α → Prop} {l : List α} {x : α}
    (hl : ∀ past h rest, l = past ++ h :: rest → P h rest)
      (hgrow : ∀ h rest, P h rest → Q h (rest ++ [x])) (hx : Q x []) :
    ∀ past h rest, l ++ [x] = past ++ h :: rest → Q h rest := by
  intro past h rest heq
  rcases List.eq_nil_or_concat rest with rfl | ⟨rest', y, rfl⟩
  · obtain ⟨-, hxh⟩ := List.append_inj' heq rfl
    rw [List.singleton_inj] at hxh
    rw [← hxh]
    exact hx
  · rw [List.concat_eq_append, ← List.cons_append, ← List.append_assoc] at heq
    obtain ⟨hpast, hxy⟩ := List.append_inj' heq rfl
    rw [List.concat_eq_append, ← hxy]
    exact hgrow h rest' (hl past h rest' hpast)

/-- The log gets an entry that begins no attempt. -/
theorem ReplayInv.handled_append (hs : ReplayInv s) {x : Happening}
    (hx : ∀ d found, x ≠ .began d found) (hcurrent : ∀ id rest, ∀ b ∈ s.batch, ∀ a ∈ b.current,
      a.delivery.id = id → a.stage.isPost = false →
      s'.Handled id (rest ++ [x])) :
    ∀ past h rest, s.log ++ [x] = past ++ h :: rest → ∀ d found, h = .began d found →
      s'.Handled d.id rest :=
  split_grow hs.handled
    (fun _ rest hd d found heq => (hd d found heq).append (hcurrent d.id rest))
    fun d found heq => absurd heq (hx d found)

/-! ## The steps -/

theorem init_replayInv (endpoints : List Endpoint) (secrets : List WebhookSecret) (clock : ℚ) :
    ReplayInv (init endpoints secrets clock) where
  waits := by simp [init, awaiting]
  outcomes := by simp [init]
  calm := by simp [init]
  handled := by simp [init]
  issued := by simp [init, claimed]

theorem ReplayInv.other (hs : ReplayInv s) (hclock : s.clock ≤ s'.clock)
    (hrows : s'.store.deliveries.Sublist s.store.deliveries) (hbatch : s'.batch = s.batch)
    (hlog : s'.log = s.log) (hissued : s'.issued = s.issued) : ReplayInv s' where
  waits := by
    rw [hlog]
    intro id t ht
    obtain ⟨htime, hreset⟩ := hs.waits id t ht
    exact ⟨htime.trans hclock, fun d hd => hreset d (hrows.subset hd)⟩
  outcomes := by rw [hlog]; exact hs.outcomes
  calm := by rw [hlog, hbatch]; exact hs.calm
  handled := by
    rw [hlog]
    refine fun past h rest heq d found hd => (hs.handled past h rest heq d found hd).congr ?_
    exact fun b hb a ha hid hstage => .inl ⟨b, hbatch ▸ hb, a, ha, hid, hstage⟩
  issued := by
    have hclaimed : s'.claimed = s.claimed := by
      unfold claimed
      rw [hbatch]
    rw [hlog, hissued, hclaimed]
    exact ⟨fun d hd => hs.issued.1 d (hrows.subset hd), hs.issued.2⟩

theorem awaiting_mem {id : String} {t : ℚ} {log : List Happening} (h : awaiting id log = some t) :
    ∃ e ∈ log, e.deliveryId = id := by
  induction log using List.reverseRecOn with
  | nil => cases h
  | append_singleton log e ih =>
    rw [awaiting_concat] at h
    by_cases hid : e.deliveryId = id
    · exact ⟨e, List.mem_append_right _ (List.mem_singleton_self _), hid⟩
    · have hsame : e.awaits id (awaiting id log) = awaiting id log := by
        cases e with
        | began d found => exact if_neg hid
        | replayed id' now => exact if_neg hid
        | posted _ _ _ _ _ | ended _ _ _ _ => rfl
      rw [hsame] at h
      obtain ⟨e', he', hid'⟩ := ih h
      exact ⟨e', List.mem_append_left _ he', hid'⟩

theorem ReplayInv.enqueue (hs : ReplayInv s) {id : String} (endpointId payload : String)
    (hnew : id ∉ s.issued) :
    ReplayInv { s with
      store := s.store.insertDelivery id endpointId payload s.clock
      issued := id :: s.issued } := by
  refine { hs with waits := ?_, issued := ?_ }
  · intro id' t ht
    refine ⟨(hs.waits id' t ht).1, fun d hd hid => ?_⟩
    rcases mem_insertDelivery hd with hd | rfl
    · exact (hs.waits id' t ht).2 d hd hid
    · obtain ⟨e, he, heid⟩ := awaiting_mem ht
      have hissued := hs.issued.2.2 e he
      rw [heid, ← hid] at hissued
      exact absurd hissued hnew
  · refine ⟨fun d hd => ?_, fun d hd => ?_, fun h hh => ?_⟩
    · rcases mem_insertDelivery hd with hd | rfl
      · exact List.mem_cons_of_mem id (hs.issued.1 d hd)
      · exact List.mem_cons_self ..
    · exact List.mem_cons_of_mem id (hs.issued.2.1 d hd)
    · exact List.mem_cons_of_mem id (hs.issued.2.2 h hh)

theorem ReplayInv.idle (hs : ReplayInv s) (hidle : ∀ b ∈ s.batch, b.current = none)
    {b : Option Batch} (hcurrent : ∀ b' ∈ b, b'.current = none)
      (hclaimed : ∀ d ∈ claimed { s with batch := b }, d.id ∈ s.issued) :
    ReplayInv { s with batch := b } := by
  refine { hs with calm := ?_, handled := ?_, issued := ⟨hs.issued.1, hclaimed, hs.issued.2.2⟩ }
  · intro b' hb' a ha
    rw [hcurrent b' hb'] at ha
    cases ha
  · refine fun past h rest heq d found hd => (hs.handled past h rest heq d found hd).congr ?_
    intro b' hb' a ha
    rw [hidle b' hb'] at ha
    cases ha

theorem ReplayInv.start (hs : ReplayInv s) {now : ℚ} {d : Delivery} {due : List Delivery}
    (hbatch : s.batch = some ⟨now, d :: due, none⟩) (found : Option Endpoint) :
    ReplayInv { s with
      batch := some ⟨now, due, some ⟨d, s.seen w d⟩⟩
      log := s.log ++ [.began d found] } := by
  have hissued := hs.issued
  have hclaimed : s.claimed = d :: due := by
    unfold claimed
    rw [hbatch]
    rfl
  rw [hclaimed] at hissued
  constructor
  case waits =>
    intro id t ht
    rw [awaiting_concat] at ht
    have ht : (if d.id = id then none else awaiting id s.log) = some t := ht
    split at ht
    · cases ht
    · exact hs.waits id t ht
  case outcomes =>
    refine split_concat hs.outcomes ?_
    rintro a opened now oc ⟨⟩
  case calm =>
    intro b hb a ha
    cases hb
    cases ha
    rw [awaiting_concat]
    exact if_pos rfl
  case handled =>
    refine split_grow hs.handled (fun h rest hd d' found' heq => (hd d' found' heq).append ?_) ?_
    · intro b hb a ha
      have hb : s.batch = some b := hb
      rw [hbatch] at hb
      cases hb
      cases ha
    · intro d' found' heq
      cases heq
      refine .inl ⟨_, rfl, _, rfl, rfl, ?_⟩
      unfold seen
      split <;> rfl
  case issued =>
    refine ⟨hissued.1, hissued.2.1, fun h hh => ?_⟩
    rcases List.mem_append.mp hh with hh | hh
    · exact hissued.2.2 h hh
    · rw [List.mem_singleton.mp hh]
      exact hissued.2.1 d (List.mem_cons_self ..)

theorem ReplayInv.sign (hs : ReplayInv s) {now : ℚ} {d : Delivery} {due : List Delivery}
    {endpoint : Endpoint} (hbatch : s.batch = some ⟨now, due, some ⟨d, .found endpoint⟩⟩)
      (secrets : List String) :
    ReplayInv { s with batch := some ⟨now, due, some ⟨d, .signed endpoint secrets⟩⟩ } := by
  have hissued := hs.issued
  have hclaimed : s.claimed = d :: due := by
    unfold claimed
    rw [hbatch]
    rfl
  rw [hclaimed] at hissued
  refine { hs with calm := ?_, handled := ?_, issued := hissued }
  · intro b hb a ha
    cases hb
    cases ha
    exact hs.calm _ hbatch ⟨d, .found endpoint⟩ rfl
  · refine fun past h rest heq d' found hd => (hs.handled past h rest heq d' found hd).congr ?_
    intro b hb a ha hid _
    have hb : s.batch = some b := hb
    rw [hbatch] at hb
    cases hb
    cases ha
    exact .inl ⟨_, rfl, _, rfl, hid, rfl⟩

theorem ReplayInv.post (hs : ReplayInv s) {now : ℚ} {d : Delivery} {due : List Delivery}
    {endpoint : Endpoint} {secrets : List String}
    (hbatch : s.batch = some ⟨now, due, some ⟨d, .signed endpoint secrets⟩⟩) (p : Posted)
      (begun : ℚ) (there : Option Endpoint) :
    ReplayInv { s with
      batch := some ⟨now, due, some ⟨d, .posting p begun⟩⟩
      log := s.log ++ [.posted d p begun now there] } := by
  have hissued := hs.issued
  have hclaimed : s.claimed = d :: due := by
    unfold claimed
    rw [hbatch]
    rfl
  rw [hclaimed] at hissued
  constructor
  case waits =>
    intro id t ht
    rw [awaiting_concat] at ht
    exact hs.waits id t ht
  case outcomes =>
    refine split_concat hs.outcomes ?_
    rintro a opened now oc ⟨⟩
  case calm =>
    intro b hb a ha
    cases hb
    cases ha
    rw [awaiting_concat]
    exact hs.calm _ hbatch ⟨d, .signed endpoint secrets⟩ rfl
  case handled =>
    refine hs.handled_append (fun _ _ h => by cases h) fun id rest b hb a ha hid _ => ?_
    have hb : s.batch = some b := hb
    rw [hbatch] at hb
    cases hb
    cases ha
    exact .inr (.inl ⟨d, p, begun, now, there,
      List.mem_append_right _ (List.mem_singleton_self _), hid⟩)
  case issued =>
    refine ⟨hissued.1, hissued.2.1, fun h hh => ?_⟩
    rcases List.mem_append.mp hh with hh | hh
    · exact hissued.2.2 h hh
    · rw [List.mem_singleton.mp hh]
      exact hissued.2.1 d (List.mem_cons_self ..)

/-- The attempt in progress ends. Nothing that is waiting is written: it is the attempt of another
delivery. -/
theorem ReplayInv.ended (hs : ReplayInv s) {now : ℚ} {due : List Delivery} {a : Attempt}
    (hbatch : s.batch = some ⟨now, due, some a⟩) {opened : Opened} {store : WebhookStore}
    {written : Option WebhookStore.Outcome} {b : Option Batch}
    (hrows : ∀ row ∈ store.deliveries, row ∈ s.store.deliveries ∨ row.id = a.delivery.id)
    (hrefused : a.stage.isPost = false → ∃ oc, written = some oc ∧ oc.status = .dead)
    (hcurrent : ∀ b' ∈ b, b'.current = none ∧ b'.due = due) :
    ReplayInv { s with
      store := store
      batch := b
      log := s.log ++ [.ended a opened now written] } := by
  have hcalm := hs.calm _ hbatch a rfl
  have hissued := hs.issued
  have hclaimed : s.claimed = a.delivery :: due := by
    unfold claimed
    rw [hbatch]
    rfl
  rw [hclaimed] at hissued
  constructor
  case waits =>
    intro id t ht
    rw [awaiting_concat] at ht
    have ht : awaiting id s.log = some t := ht
    refine ⟨(hs.waits id t ht).1, fun d hd hid => ?_⟩
    rcases hrows d hd with hd | hd
    · exact (hs.waits id t ht).2 d hd hid
    · rw [← hid, hd, hcalm] at ht
      cases ht
  case outcomes =>
    refine split_concat hs.outcomes ?_
    rintro a' opened' now' oc ⟨⟩
    exact hcalm
  case calm =>
    intro b' hb' a' ha'
    rw [(hcurrent b' hb').1] at ha'
    cases ha'
  case handled =>
    refine hs.handled_append (fun _ _ h => by cases h) fun id rest b' hb' a' ha' hid hstage => ?_
    have hb' : s.batch = some b' := hb'
    rw [hbatch] at hb'
    cases hb'
    cases ha'
    obtain ⟨oc, rfl, hdead⟩ := hrefused hstage
    exact .inr (.inr ⟨a, opened, now, oc,
      List.mem_append_right _ (List.mem_singleton_self _), hid, hdead⟩)
  case issued =>
    refine ⟨fun d hd => ?_, fun d hd => ?_, fun h hh => ?_⟩
    · rcases hrows d hd with hd | hd
      · exact hissued.1 d hd
      · rw [hd]
        exact hissued.2.1 _ (List.mem_cons_self ..)
    · cases b with
      | none => cases hd
      | some b =>
        obtain ⟨hnone, hdue⟩ := hcurrent b rfl
        have hd : d ∈ (b.current.map (·.delivery)).toList ++ b.due := hd
        rw [hnone, hdue] at hd
        exact hissued.2.1 d (List.mem_cons_of_mem _ hd)
    · rcases List.mem_append.mp hh with hh | hh
      · exact hissued.2.2 h hh
      · rw [List.mem_singleton.mp hh]
        exact hissued.2.1 _ (List.mem_cons_self ..)

theorem verdict_refused {opened : Opened} {now : ℚ} {a : Attempt}
    {r : Except Exc WebhookStore.Outcome} (h : w.verdict opened now a = some r)
      (hstage : a.stage.isPost = false) :
    ∃ oc, r = .ok oc ∧ oc.status = .dead := by
  unfold DeliveryWorker.verdict at h
  split at h
  · cases h
    exact ⟨_, rfl, rfl⟩
  · rename_i heq
    rw [heq] at hstage
    cases hstage
  · cases h

theorem ReplayInv.replay (hs : ReplayInv s) {id : String} (hfree : s.attempting id = false) :
    ReplayInv (s.replay id) := by
  have hrows : ∀ d ∈ (s.replay id).store.deliveries,
      (d.id = id ∧ Reset s.clock d ∨ d.id ≠ id ∧ d ∈ s.store.deliveries) ∧ d.id ∈ s.issued := by
    intro d hd
    obtain ⟨d₀, hd₀, ⟨hid, rfl⟩ | ⟨hid, rfl⟩⟩ := Table.mem_update hd
    · have hid : d₀.id = id := by simpa using hid
      exact ⟨.inl ⟨hid, rfl, rfl, rfl⟩, hs.issued.1 d₀ hd₀⟩
    · exact ⟨.inr ⟨by simpa using hid, hd₀⟩, hs.issued.1 d hd₀⟩
  cases hany : (s.store.replay id s.clock).1 with
  | false =>
    have hlog : (s.replay id).log = s.log := by simp [DeliveryState.replay, hany]
    have hnone : ∀ d ∈ s.store.deliveries, d.id ≠ id := by
      simpa [WebhookStore.replay] using hany
    constructor
    case waits =>
      rw [hlog]
      intro id' t ht
      refine ⟨(hs.waits id' t ht).1, fun d hd hid => ?_⟩
      obtain ⟨d₀, hd₀, ⟨hid₀, rfl⟩ | ⟨-, rfl⟩⟩ := Table.mem_update hd
      · exact absurd (by simpa using hid₀) (hnone d₀ hd₀)
      · exact (hs.waits id' t ht).2 d hd₀ hid
    case outcomes => rw [hlog]; exact hs.outcomes
    case calm => rw [hlog]; exact hs.calm
    case handled =>
      rw [hlog]
      refine fun past h rest heq d found hd => (hs.handled past h rest heq d found hd).congr ?_
      exact fun b hb a ha hid hstage => .inl ⟨b, hb, a, ha, hid, hstage⟩
    case issued => rw [hlog]; exact ⟨fun d hd => (hrows d hd).2, hs.issued.2⟩
  | true =>
    have hlog : (s.replay id).log = s.log ++ [.replayed id s.clock] := by
      simp [DeliveryState.replay, hany]
    constructor
    case waits =>
      rw [hlog]
      intro id' t ht
      rw [awaiting_concat] at ht
      have ht : (if id = id' then some s.clock else awaiting id' s.log) = some t := ht
      split at ht
      · rename_i hid
        cases ht
        refine ⟨le_refl _, fun d hd hd' => ?_⟩
        rcases (hrows d hd).1 with ⟨-, hreset⟩ | ⟨hne, -⟩
        · exact hreset
        · exact absurd (hd'.trans hid.symm) hne
      · rename_i hid
        refine ⟨(hs.waits id' t ht).1, fun d hd hd' => ?_⟩
        rcases (hrows d hd).1 with ⟨heq, -⟩ | ⟨-, hd⟩
        · exact absurd (heq.symm.trans hd') hid
        · exact (hs.waits id' t ht).2 d hd hd'
    case outcomes =>
      rw [hlog]
      refine split_concat hs.outcomes ?_
      rintro a opened now oc ⟨⟩
    case calm =>
      rw [hlog]
      intro b hb a ha
      have hbatch : s.batch = some b := hb
      have hne : id ≠ a.delivery.id := by
        intro hid
        unfold attempting at hfree
        rw [hbatch, Option.any_some, ha] at hfree
        simp [hid] at hfree
      rw [awaiting_concat]
      exact (if_neg hne).trans (hs.calm b hbatch a ha)
    case handled =>
      rw [hlog]
      refine hs.handled_append (fun _ _ h => by cases h) fun _ _ b hb a ha hid hstage => ?_
      exact .inl ⟨b, hb, a, ha, hid, hstage⟩
    case issued =>
      rw [hlog]
      refine ⟨fun d hd => (hrows d hd).2, hs.issued.2.1, fun h hh => ?_⟩
      rcases List.mem_append.mp hh with hh | hh
      · exact hs.issued.2.2 h hh
      · rw [List.mem_singleton.mp hh]
        obtain ⟨d, hd, hid⟩ := List.any_eq_true.mp hany
        have hid : d.id = id := by simpa using hid
        exact hid ▸ hs.issued.1 d hd

theorem step_replayInv (hs : ReplayInv s) (hok : s.between l = true) (hst : step w s l = some s') :
    ReplayInv s' := by
  cases moves_of_step hst with
  | other hclock hrows hbatch hlog hissued => exact hs.other hclock hrows hbatch hlog hissued
  | enqueue id endpointId payload hnew => exact hs.enqueue endpointId payload hnew
  | poll hidle =>
    refine hs.idle (fun b hb => ?_) (fun b hb => ?_) fun d hd => hs.issued.1 d (mem_claimDue hd)
    · rw [hidle] at hb
      cases hb
    · cases hb
      rfl
  | leave hbatch =>
    refine hs.idle (fun b hb => ?_) (fun b hb => by cases hb) fun d hd => by cases hd
    have hb : s.batch = some b := hb
    rw [hbatch] at hb
    cases hb
    rfl
  | start hbatch => exact hs.start hbatch _
  | sign hbatch => exact hs.sign hbatch _
  | post hbatch => exact hs.post hbatch _ _ _
  | @record now due a opened oc hbatch hverdict =>
    refine hs.ended hbatch (fun row hrow => ?_) (fun hstage => ?_) fun b hb => ?_
    · obtain ⟨row₀, hrow₀, ⟨hid, rfl⟩ | ⟨-, rfl⟩⟩ := Table.mem_update hrow
      · have hid : row₀.id = a.delivery.id := by simpa using hid
        exact .inr hid
      · exact .inl hrow₀
    · obtain ⟨oc', hoc, hdead⟩ := verdict_refused hverdict hstage
      cases hoc
      exact ⟨oc, rfl, hdead⟩
    · cases hb
      exact ⟨rfl, rfl⟩
  | raise hbatch hverdict =>
    refine hs.ended hbatch (fun row hrow => .inl hrow) (fun hstage => ?_) fun b hb => ?_
    · obtain ⟨oc, hoc, -⟩ := verdict_refused hverdict hstage
      cases hoc
    · cases hb
  | replay id => exact hs.replay (by simpa [between] using hok)

/-! ## A replay in the middle of an attempt -/

theorem verdict_counts {opened : Opened} {now : ℚ} {a : Attempt} {oc : WebhookStore.Outcome}
    (h : w.verdict opened now a = some (.ok oc)) : oc.attemptsInc = true := by
  have hfailure : ∀ d code error, (w.failure d code error now).attemptsInc = true := by
    intro d code error
    unfold DeliveryWorker.failure
    split
    · rfl
    · rfl
  unfold DeliveryWorker.verdict at h
  split at h
  · cases h
    rfl
  · rw [Option.some_inj] at h
    unfold DeliveryWorker.reply at h
    split at h
    · cases h
      exact hfailure _ _ _
    · cases h
    · split at h
      · cases h
        rfl
      · cases h
        exact hfailure _ _ _
  · cases h

/-- The outcome of an attempt is written over a delivery that is waiting. -/
theorem finish_lost {id : String} {d : Delivery} {now t : ℚ} {due : List Delivery} {a : Attempt}
    (hbatch : s.batch = some ⟨now, due, some a⟩) (hid : a.delivery.id = id)
    (hd : d ∈ s.store.deliveries) (hdid : d.id = id) (hattempts : d.attempts = 0)
    (hwaiting : awaiting id s.log = some t) {opened : Opened} {oc : WebhookStore.Outcome}
    (hverdict : w.verdict opened now a = some (.ok oc)) :
    ∃ v, s.step w (.finish opened) = some v ∧ ¬ ReplaysKept w v := by
  have hstep : s.step w (.finish opened) = some
      { s with
        store := s.store.update a.delivery.id oc now
        batch := some ⟨now, due, none⟩
        log := s.log ++ [.ended a opened now (some oc)] } := by
    unfold step finish
    rw [hbatch]
    dsimp only
    rw [hverdict]
  refine ⟨_, hstep, fun hkept => ?_⟩
  have hstill : awaiting id (s.log ++ [.ended a opened now (some oc)]) = some t := by
    rw [awaiting_concat]
    exact hwaiting
  have hrow : oc.set now d ∈ (s.store.update a.delivery.id oc now).deliveries := by
    have hupdated : oc.set now d ∈ (s.store.update d.id oc now).deliveries := mem_update_self hd
    rwa [show d.id = a.delivery.id from hdid.trans hid.symm] at hupdated
  obtain ⟨-, hcleared, -⟩ := hkept.waits id t hstill _ hrow hdid
  simp [WebhookStore.Outcome.set, hattempts, verdict_counts hverdict] at hcleared

theorem reply_ok {opened : Opened} (hopened : ∀ e, opened ≠ .raised e) (now : ℚ) (d : Delivery)
    (url : String) : ∃ oc, w.reply opened now d url = .ok oc := by
  simp only [DeliveryWorker.reply]
  split
  · exact ⟨_, rfl⟩
  · rename_i e hpost
    unfold DeliveryWorker.post at hpost
    split at hpost
    · cases hpost
    · split at hpost <;> cases hpost
      exact absurd rfl (hopened e)
  · split
    · exact ⟨_, rfl⟩
    · exact ⟨_, rfl⟩

section

variable {d d' : Delivery} {now t : ℚ} {due : List Delivery} {opened : Opened}

/-- An attempt in progress goes on to its end, and overwrites a delivery that is waiting: from its
POST on. -/
theorem posting_lost {p : Posted} {begun : ℚ}
    (hbatch : s.batch = some ⟨now, due, some ⟨d', .posting p begun⟩⟩) (hid : d'.id = d.id)
      (hd : d ∈ s.store.deliveries) (hattempts : d.attempts = 0)
      (hwaiting : awaiting d.id s.log = some t) (hopened : ∀ e, opened ≠ .raised e) :
    ∃ v, s.step w (.finish opened) = some v ∧ ¬ ReplaysKept w v := by
  obtain ⟨oc, hoc⟩ := reply_ok (w := w) hopened now d' p.url
  exact finish_lost hbatch hid hd rfl hattempts hwaiting (congrArg some hoc)

theorem signed_lost {endpoint : Endpoint} {secrets : List String}
    (hbatch : s.batch = some ⟨now, due, some ⟨d', .signed endpoint secrets⟩⟩)
    (hid : d'.id = d.id) (hd : d ∈ s.store.deliveries) (hattempts : d.attempts = 0)
    (hwaiting : awaiting d.id s.log = some t) (hopened : ∀ e, opened ≠ .raised e) :
    ∃ v, Run (step w) s [.post, .finish opened] v ∧ ¬ ReplaysKept w v := by
  have hst : step w s .post = some
      { s with
        batch := some ⟨now, due, some ⟨d', .posting (w.request now d' endpoint secrets) s.clock⟩⟩
        log := s.log ++ [.posted d' (w.request now d' endpoint secrets) s.clock now
          (s.store.getEndpoint d'.endpointId)] } := by
    unfold step DeliveryState.post
    rw [hbatch]
  have hstill : awaiting d.id (s.log ++ [.posted d' (w.request now d' endpoint secrets) s.clock now
      (s.store.getEndpoint d'.endpointId)]) = some t := by
    rw [awaiting_concat]
    exact hwaiting
  obtain ⟨v, hfinish, hlost⟩ := posting_lost (s := { s with
    batch := some ⟨now, due, some ⟨d', .posting (w.request now d' endpoint secrets) s.clock⟩⟩
    log := _ }) rfl hid hd hattempts hstill hopened
  exact ⟨v, .cons hst (.single hfinish), hlost⟩

theorem found_lost {endpoint : Endpoint}
    (hbatch : s.batch = some ⟨now, due, some ⟨d', .found endpoint⟩⟩) (hid : d'.id = d.id)
      (hd : d ∈ s.store.deliveries) (hattempts : d.attempts = 0)
      (hwaiting : awaiting d.id s.log = some t) (hopened : ∀ e, opened ≠ .raised e) :
    ∃ v, Run (step w) s [.sign, .post, .finish opened] v ∧ ¬ ReplaysKept w v := by
  have hst : step w s .sign = some { s with
      batch := some ⟨now, due,
        some ⟨d', .signed endpoint (s.store.activeSecrets endpoint.id now)⟩⟩ } := by
    unfold step DeliveryState.sign
    rw [hbatch]
  obtain ⟨v, hrun, hlost⟩ := signed_lost (w := w) (s := { s with
    batch := some ⟨now, due, some ⟨d', .signed endpoint (s.store.activeSecrets endpoint.id now)⟩⟩ })
    rfl hid hd hattempts hwaiting hopened
  exact ⟨v, .cons hst hrun, hlost⟩

end

/-- In every run in which no delivery is replayed in the middle of an attempt of it, every replay
stands until an attempt that is begun after it. And wherever one is replayed in the middle of an
attempt, the end of that attempt overwrites the replay, unless its POST raises. -/
theorem replays_kept_of_between (w : DeliveryWorker) (endpoints : List Endpoint)
    (secrets : List WebhookSecret) (clock : ℚ) (ls : List DeliveryLabel) :
    (Guarded (step w) (fun s l => s.between l = true) (init endpoints secrets clock) ls →
      Always (step w) (ReplaysKept w) (init endpoints secrets clock) ls) ∧
    ∀ (t : DeliveryState), ∀ d ∈ t.store.deliveries, t.between (.replay d.id) = false →
      ∀ opened, (∀ e, opened ≠ .raised e) →
        ∃ ls v, (∀ l ∈ ls, l = .sign ∨ l = .post) ∧
          Run (step w) t (.replay d.id :: ls ++ [.finish opened]) v ∧ ¬ ReplaysKept w v := by
  constructor
  · intro hok
    exact Guarded.always (I := ReplayInv) (fun _ _ _ hs hok hst => step_replayInv hs hok hst)
      (fun _ hs => hs.kept) (init_replayInv endpoints secrets clock) hok
  · intro t d hd hmiddle opened hopened
    simp only [between, attempting, Bool.not_eq_false', Option.any_eq_true,
      decide_eq_true_eq] at hmiddle
    obtain ⟨⟨now, due, current⟩, hbatch, a, rfl, hid⟩ := hmiddle
    have hany : (t.store.replay d.id t.clock).1 = true :=
      List.any_eq_true.mpr ⟨d, hd, by simp⟩
    have hwaiting : awaiting d.id (t.replay d.id).log = some t.clock := by
      simp only [DeliveryState.replay, hany, if_true, awaiting_concat]
      exact if_pos rfl
    have hmem : WebhookStore.replayed t.clock d ∈ (t.replay d.id).store.deliveries :=
      List.mem_map.mpr ⟨d, hd, by simp⟩
    obtain ⟨d', stage⟩ := a
    have hbatch : (t.replay d.id).batch = some ⟨now, due, some ⟨d', stage⟩⟩ := hbatch
    cases stage with
    | refused error =>
      obtain ⟨v, hst, hlost⟩ := finish_lost (w := w) hbatch hid hmem rfl rfl hwaiting rfl
      exact ⟨[], v, by simp, .cons rfl (.single hst), hlost⟩
    | found endpoint =>
      obtain ⟨v, hrun, hlost⟩ :=
          found_lost (w := w) (d := WebhookStore.replayed t.clock d) hbatch hid hmem rfl hwaiting hopened
      exact ⟨[.sign, .post], v, by simp, .cons rfl hrun, hlost⟩
    | signed endpoint secrets =>
      obtain ⟨v, hrun, hlost⟩ :=
          signed_lost (w := w) (d := WebhookStore.replayed t.clock d) hbatch hid hmem rfl hwaiting hopened
      exact ⟨[.post], v, by simp, .cons rfl hrun, hlost⟩
    | posting p begun =>
      obtain ⟨v, hst, hlost⟩ :=
          posting_lost (w := w) (d := WebhookStore.replayed t.clock d) hbatch hid hmem rfl hwaiting hopened
      exact ⟨[], v, by simp, .cons rfl (.single hst), hlost⟩

/-- A dead delivery is replayed, and delivered then. -/
def replayedDead : List DeliveryLabel :=
  [.enqueue "d1" "e1" "", .poll, .next, .sign, .post, .finish (.httpError 503), .next, .tick 5,
    .replay "d1", .poll, .next, .sign, .post, .finish (.response 200)]

theorem replays_kept_replayedDead :
    Always (step { plainWorker with maxAttempts := 1 })
        (ReplaysKept { plainWorker with maxAttempts := 1 }) (init [hook] [] 0) replayedDead ∧
      ∃ t, Run (step { plainWorker with maxAttempts := 1 }) (init [hook] [] 0) replayedDead t ∧
        (t.log.countP (·.posts "d1"), t.store.deliveries.map (·.status)) = (2, [.succeeded]) :=
  ⟨(replays_kept_of_between { plainWorker with maxAttempts := 1 } [hook] [] 0 replayedDead).1
    (by decide +kernel), run_of_exec_map (by decide +kernel)⟩

/-- The operator replays a delivery while it is being posted. -/
def replayedMidway : List DeliveryLabel :=
  [.enqueue "d1" "e1" "", .poll, .next, .sign, .post, .replay "d1", .finish (.response 200)]

/-- The delivery is recorded as succeeded, by the attempt that the replay has interrupted. -/
theorem replay_overwritten :
    ∃ t, Run (step plainWorker) (init [hook] [] 0) replayedMidway t ∧
      t.store.deliveries.map (fun d => (d.id, d.status, d.attempts)) = [("d1", .succeeded, 1)] ∧
      awaiting "d1" t.log = some 0 ∧ ¬ ReplaysKept plainWorker t := by
  have hexec : (exec (step plainWorker) (init [hook] [] 0) replayedMidway).map (fun t =>
      (t.store.deliveries.map (fun d => (d.id, d.status, d.attempts)), awaiting "d1" t.log)) =
      some ([("d1", .succeeded, 1)], some 0) := by decide +kernel
  obtain ⟨t, hrun, hend⟩ := run_of_exec_map hexec
  obtain ⟨hrows, hwaiting⟩ := Prod.mk.inj hend
  refine ⟨t, hrun, hrows, hwaiting, fun hkept => ?_⟩
  obtain ⟨d, hd, hrow⟩ := List.mem_map.mp (hrows ▸ List.mem_singleton_self _)
  simp only [Prod.mk.injEq] at hrow
  obtain ⟨hpending, -⟩ := hkept.waits "d1" 0 hwaiting d hd hrow.1
  rw [hrow.2.1] at hpending
  cases hpending

end DeliveryState
end InferenceEngine
