import InferenceEngine.Billing.ClientEvents
import InferenceEngine.Lib.Run

/-!
# Billing.ClientPolling

A client without a stream catches up with `GET /client/events`: it asks for what comes after the
last id it has been told, with any limit (`get_events` in `api/client_router.py`). Events of all
clients are appended and pruned in between, and answers may be lost.

* `polling_exact`: nothing comes twice or out of order, nothing recent is passed over, and a page
  that is not full is the last one.
-/

namespace InferenceEngine

open Feed Lts

namespace ClientEventLog

/-- `list_since` with the limit of a request: a negative one is none, for SQLite. -/
def page (log : ClientEventLog) (clientId : String) (sinceId : Nat) (limit : Int) :
    List ClientEvent :=
  if limit < 0 then log.since clientId sinceId else log.listSince clientId sinceId limit.toNat

/-- `get_events`: the events and `last_id`. -/
def getEvents (log : ClientEventLog) (clientId : String) (since limit : Int) :
    List ClientEvent × Nat :=
  let events := log.page clientId since.toNat limit
  (events, (events.getLast?.map (·.id)).getD since.toNat)

end ClientEventLog

structure PollState where
  log : ClientEventLog := .empty
  /-- all that has been appended, pruned or not -/
  appended : List ClientEvent := []
  received : List ClientEvent := []
  /-- the `last_id` of the last answer -/
  lastId : Nat := 0

inductive PollLabel where
  | emit (e : ClientEventLog.NewEvent)
  | poll (limit : Int) (lost : Bool)
  deriving DecidableEq

namespace PollState

def emit (s : PollState) (r : Retention) (e : ClientEventLog.NewEvent) : PollState :=
  match s.log.append r e with
  | (none, _) => s
  | (some _, log) => { s with log := log, appended := s.appended ++ [s.log.newRow e] }

def step (r : Retention) (me : String) (s : PollState) : PollLabel → Option PollState
  | .emit e => some (s.emit r e)
  | .poll limit lost =>
    let answer := s.log.getEvents me s.lastId limit
    some (if lost then s else { s with received := s.received ++ answer.1, lastId := answer.2 })

structure Inv (r : Retention) (me : String) (s : PollState) : Prop where
  rows : s.log.rows.Sublist s.appended
  bounded : ∀ e ∈ s.appended, e.id ≤ s.log.seq
  kept : ∀ row ∈ s.appended, ClientEventLog.Recent r s.appended row → row ∈ s.log.rows
  received : Ascending ClientEvent.id s.received
  mine : ∀ e ∈ s.received, e ∈ s.appended ∧ e.clientId = me
  lastId_eq : s.lastId = last ClientEvent.id s.received
  covers : ∀ e ∈ s.log.rows, e.clientId = me → e.id ≤ s.lastId → e ∈ s.received

variable {r : Retention} {me : String} {s s' t : PollState} {l : PollLabel}

theorem init_inv (r : Retention) (me : String) : Inv r me {} where
  rows := .refl _
  bounded := List.forall_mem_nil _
  kept := List.forall_mem_nil _
  received := .nil
  mine := List.forall_mem_nil _
  lastId_eq := rfl
  covers := List.forall_mem_nil _

theorem emit_cases (s : PollState) (r : Retention) (e : ClientEventLog.NewEvent) :
    s.emit r e = s ∨
      s.log.known e = false ∧
        s.emit r e = { s with log := (s.log.append r e).2, appended := s.appended ++ [s.log.newRow e] } := by
  unfold emit
  rcases ClientEventLog.append_cases s.log r e with ⟨-, heq⟩ | ⟨hknown, hid, -⟩
  · rw [heq]
    exact .inl rfl
  · rcases hres : s.log.append r e with ⟨_ | id, log⟩
    · rw [hres] at hid
      cases hid
    · exact .inr ⟨hknown, rfl⟩

theorem Inv.lastId_le (h : Inv r me s) : s.lastId ≤ s.log.seq := by
  rw [h.lastId_eq]
  rcases List.eq_nil_or_concat s.received with hnil | ⟨before, e, heq⟩
  · rw [hnil]
    exact Nat.zero_le _
  · rw [List.concat_eq_append] at heq
    rw [heq, last_append_singleton]
    exact h.bounded e (h.mine e (by simp [heq])).1

theorem Inv.emit (h : Inv r me s) (e : ClientEventLog.NewEvent) : Inv r me (s.emit r e) := by
  rcases emit_cases s r e with heq | ⟨hknown, heq⟩
  · rwa [heq]
  · obtain ⟨hseq, hrows⟩ := ClientEventLog.append_new (r := r) hknown
    have hnew : (s.log.newRow e).id = s.log.seq + 1 := rfl
    rw [heq]
    refine
      { rows := (ClientEventLog.append_rows_sublist s.log r e).trans (h.rows.append_right _)
        bounded := fun a ha => ?_
        kept := fun row hrow hrecent => ?_
        received := h.received
        mine := fun a ha => ⟨List.mem_append_left _ (h.mine a ha).1, (h.mine a ha).2⟩
        lastId_eq := h.lastId_eq
        covers := fun a ha hclient hle => ?_ }
    · show a.id ≤ (s.log.append r e).2.seq
      rw [hseq]
      rcases List.mem_append.mp ha with ha | ha
      · exact Nat.le_succ_of_le (h.bounded a ha)
      · rw [List.mem_singleton.mp ha, hnew]
    · show row ∈ (s.log.append r e).2.rows
      rw [hrows]
      refine ClientEventLog.mem_append_of_recent (s.log.inserted_ascending e)
        (h.rows.append_right _) ?_ hrecent
      rcases List.mem_append.mp hrow with hrow | hrow
      · exact List.mem_append_left _ (h.kept row hrow hrecent.of_append)
      · exact List.mem_append_right _ hrow
    · rcases List.mem_append.mp
          ((ClientEventLog.append_rows_sublist s.log r e).subset ha) with ha | ha
      · exact h.covers a ha hclient hle
      · have hpassed := Nat.le_trans hle h.lastId_le
        rw [List.mem_singleton.mp ha] at hpassed
        omega

theorem mem_since {log : ClientEventLog} {sinceId : Nat} {e : ClientEvent} :
    e ∈ log.since me sinceId ↔ e ∈ log.rows ∧ e.clientId = me ∧ sinceId < e.id := by
  simp [ClientEventLog.since, List.mem_filter]

theorem page_take (log : ClientEventLog) (sinceId : Nat) (limit : Int) :
    ∃ n, log.page me sinceId limit = (log.since me sinceId).take n ∧
      (limit < 0 ∨ ((log.page me sinceId limit).length : Int) < limit →
        log.page me sinceId limit = log.since me sinceId) := by
  unfold ClientEventLog.page ClientEventLog.listSince
  split
  · exact ⟨_, (List.take_length ..).symm, fun _ => rfl⟩
  · rename_i hpos
    refine ⟨_, rfl, fun hshort => ?_⟩
    have hlen : ((log.since me sinceId).take limit.toNat).length < limit.toNat := by omega
    rw [List.length_take] at hlen
    exact List.take_of_length_le (by omega)

theorem Inv.poll (h : Inv r me s) (limit : Int) :
    Inv r me { s with
      received := s.received ++ (s.log.getEvents me s.lastId limit).1
      lastId := (s.log.getEvents me s.lastId limit).2 } := by
  obtain ⟨n, hpage, -⟩ := @page_take me s.log s.lastId limit
  have hasc : Ascending ClientEvent.id (s.log.since me s.lastId) :=
    s.log.ascending.sublist List.filter_sublist
  have hmem {e : ClientEvent}
      (he : e ∈ s.log.page me s.lastId limit) : e ∈ s.log.since me s.lastId :=
    List.mem_of_mem_take (hpage ▸ he)
  have hall : Ascending ClientEvent.id (s.received ++ s.log.page me s.lastId limit) := by
    refine List.pairwise_append.mpr ⟨h.received, hpage ▸ hasc.sublist (List.take_sublist ..),
      fun a ha b hb => ?_⟩
    have hle := h.received.key_le_last ha
    rw [← h.lastId_eq] at hle
    exact Nat.lt_of_le_of_lt hle (mem_since.mp (hmem hb)).2.2
  have hlast : (s.log.getEvents me s.lastId limit).2 =
      last ClientEvent.id (s.received ++ s.log.page me s.lastId limit) := by
    unfold ClientEventLog.getEvents
    rw [Int.toNat_natCast]
    rcases List.eq_nil_or_concat (s.log.page me s.lastId limit) with hnil | ⟨before, e, heq⟩
    · rw [hnil, List.append_nil]
      exact h.lastId_eq
    · rw [List.concat_eq_append] at heq
      rw [heq, ← List.append_assoc, last_append_singleton]
      simp
  have hevents : (s.log.getEvents me s.lastId limit).1 = s.log.page me s.lastId limit := by
    unfold ClientEventLog.getEvents
    rw [Int.toNat_natCast]
  rw [hevents]
  refine
    { rows := h.rows
      bounded := h.bounded
      kept := h.kept
      received := hall
      mine := fun e he => ?_
      lastId_eq := hlast
      covers := fun e he hclient hle => ?_ }
  · rcases List.mem_append.mp he with he | he
    · exact h.mine e he
    · obtain ⟨hrow, hclient, -⟩ := mem_since.mp (hmem he)
      exact ⟨h.rows.subset hrow, hclient⟩
  · by_cases hold : e.id ≤ s.lastId
    · exact List.mem_append_left _ (h.covers e he hclient hold)
    · -- not past the last of the page, so on it
      have hin : e ∈ s.log.since me s.lastId := mem_since.mpr ⟨he, hclient, by omega⟩
      have hle : e.id ≤ (s.log.getEvents me s.lastId limit).2 := hle
      rcases List.eq_nil_or_concat (s.log.page me s.lastId limit) with hnil | ⟨before, b, heq⟩
      · rw [hlast, hnil, List.append_nil, ← h.lastId_eq] at hle
        omega
      · rw [List.concat_eq_append] at heq
        rw [hlast, heq, ← List.append_assoc, last_append_singleton] at hle
        have hb : b ∈ (s.log.since me s.lastId).take n :=
          hpage ▸ heq ▸ List.mem_append_right _ (List.mem_singleton_self b)
        exact List.mem_append_right _ (hpage ▸ hasc.mem_take hin hb hle)

theorem step_inv (h : Inv r me s) (hstep : s.step r me l = some s') : Inv r me s' := by
  cases l with
  | emit e =>
    cases hstep
    exact h.emit e
  | poll limit lost =>
    cases hstep
    cases lost with
    | true => exact h
    | false => exact h.poll limit

/-- **A polling client gets each of its events once, in order, and no recent one is lost**: by
appends to any log, by retention, or by an answer that does not arrive. What it has not received is
still to come, and nothing is once a page was not full. -/
theorem polling_exact {ls : List PollLabel} (hrun : Run (step r me) {} ls t) :
    Ascending ClientEvent.id t.received ∧
      (∀ e ∈ t.received, e ∈ t.appended ∧ e.clientId = me) ∧
      (∀ e ∈ t.appended, e.clientId = me → ClientEventLog.Recent r t.appended e →
        e ∈ t.received ∨ e ∈ t.log.rows ∧ t.lastId < e.id) ∧
      ∀ limit, limit < 0 ∨ ((t.log.getEvents me t.lastId limit).1.length : Int) < limit →
        ∀ e ∈ t.appended, e.clientId = me → ClientEventLog.Recent r t.appended e →
          e ∈ t.received ++ (t.log.getEvents me t.lastId limit).1 := by
  have h : Inv r me t := hrun.invariant (fun _ _ _ h hstep => step_inv h hstep) (init_inv r me)
  have hahead : ∀ e ∈ t.appended, e.clientId = me → ClientEventLog.Recent r t.appended e →
      e ∈ t.received ∨ e ∈ t.log.rows ∧ t.lastId < e.id := by
    intro e he hclient hrecent
    have hrow := h.kept e he hrecent
    by_cases hle : e.id ≤ t.lastId
    · exact .inl (h.covers e hrow hclient hle)
    · exact .inr ⟨hrow, by omega⟩
  refine ⟨h.received, h.mine, hahead, fun limit hshort e he hclient hrecent => ?_⟩
  rcases hahead e he hclient hrecent with hin | ⟨hrow, hlt⟩
  · exact List.mem_append_left _ hin
  · obtain ⟨n, -, hfull⟩ := @page_take me t.log t.lastId limit
    unfold ClientEventLog.getEvents at hshort ⊢
    rw [Int.toNat_natCast] at hshort ⊢
    refine List.mem_append_right _ ?_
    show e ∈ t.log.page me t.lastId limit
    rw [hfull hshort]
    exact mem_since.mpr ⟨hrow, hclient, hlt⟩

def posted (clientId eventId : String) : ClientEventLog.NewEvent :=
  ⟨clientId, eventId, "plan.changed", "\x7b\x7d", 0⟩

/-- The first answer is lost; the second is a page of one. -/
def pageOfOne : List PollLabel :=
  [.emit (posted "c1" "a"), .emit (posted "c2" "a"), .emit (posted "c1" "b"),
    .poll 1 true, .poll 1 false]

theorem polling_exact_pageOfOne :
    ∃ t, Run (step { maxPerClient := 2 } "c1") {} pageOfOne t ∧
      (t.received.map (·.id), t.lastId,
        (t.log.getEvents "c1" 1 (-1)).1.map (·.id)) = ([1], 1, [3]) ∧
      Ascending ClientEvent.id t.received := by
  obtain ⟨t, hrun, ht⟩ : ∃ t, Run (step { maxPerClient := 2 } "c1") {} pageOfOne t ∧
      (t.received.map (·.id), t.lastId,
        (t.log.getEvents "c1" 1 (-1)).1.map (·.id)) = ([1], 1, [3]) :=
    run_of_exec_map (by decide +kernel)
  exact ⟨t, hrun, ht, (polling_exact hrun).1⟩

end PollState

end InferenceEngine
