import InferenceEngine.Lib.Feed
import Mathlib.Algebra.Order.Field.Rat
import Mathlib.Tactic.Linarith

/-!
# Billing.ClientEvents

The events of the clients (`billing/client_events.py`): the durable log with its retention, and the
wakeups of the live streams. A failed `append` is rolled back and changes nothing.

* `ClientEventLog`: rows in the order of their ids, unique by client and event id. The ids come from
  a sequence that deletions do not set back.
* `Recent`: how few and how old the later events of a client have to be for retention to spare a
  row.
* `mem_append_of_recent`: a recent row survives an append.
-/

namespace InferenceEngine

open Feed

structure ClientEvent where
  id : Nat
  clientId : String
  eventId : String
  type : String
  payload : String
  ts : ℚ
  deriving DecidableEq, Repr

/-- `client_events_retention_*`; 0 is no limit. -/
structure Retention where
  maxAgeS : ℚ := 0
  maxPerClient : Nat := 0
  deriving DecidableEq, Repr

/-- Do the rows clash in `UNIQUE (client_id, event_id)`? -/
def ClientEvent.SameEvent (a b : ClientEvent) : Prop :=
  a.clientId = b.clientId ∧ a.eventId = b.eventId

structure ClientEventLog where
  rows : List ClientEvent
  /-- the largest id there has ever been -/
  seq : Nat
  ascending : Ascending ClientEvent.id rows
  bounded : ∀ e ∈ rows, e.id ≤ seq
  unique : rows.Pairwise fun a b => ¬ a.SameEvent b

namespace ClientEventLog

def empty : ClientEventLog where
  rows := []
  seq := 0
  ascending := .nil
  bounded := by simp
  unique := .nil

/-- `SELECT id ... ORDER BY id DESC LIMIT ?` -/
def newest (rows : List ClientEvent) (clientId : String) (limit : Nat) : List Nat :=
  ((rows.filter fun e => e.clientId = clientId).map (·.id)).reverse.take limit

/-- The first statement of `_prune`. -/
def pruneAge (r : Retention) (clientId : String) (now : ℚ) (rows : List ClientEvent) :
    List ClientEvent :=
  if 0 < r.maxAgeS then
    rows.filter fun e => !(e.clientId = clientId && e.ts < now - r.maxAgeS)
  else rows

/-- The second statement of `_prune`. -/
def pruneCount (r : Retention) (clientId : String) (rows : List ClientEvent) : List ClientEvent :=
  if 0 < r.maxPerClient then
    rows.filter fun e => !(e.clientId =
      clientId && !(newest rows clientId r.maxPerClient).contains e.id)
  else rows

/-- `_prune`. -/
def prune (r : Retention) (clientId : String) (now : ℚ) (rows : List ClientEvent) :
    List ClientEvent :=
  pruneCount r clientId (pruneAge r clientId now rows)

theorem pruneAge_sublist (r : Retention) (clientId : String) (now : ℚ) (rows : List ClientEvent) :
    (pruneAge r clientId now rows).Sublist rows := by
  unfold pruneAge
  split
  · exact List.filter_sublist
  · exact List.Sublist.refl rows

theorem pruneCount_sublist (r : Retention) (clientId : String) (rows : List ClientEvent) :
    (pruneCount r clientId rows).Sublist rows := by
  unfold pruneCount
  split
  · exact List.filter_sublist
  · exact List.Sublist.refl rows

theorem prune_sublist (r : Retention) (clientId : String) (now : ℚ) (rows : List ClientEvent) :
    (prune r clientId now rows).Sublist rows :=
  (pruneCount_sublist ..).trans (pruneAge_sublist ..)

structure NewEvent where
  clientId : String
  eventId : String
  type : String
  payload : String
  now : ℚ
  deriving DecidableEq, Repr

variable (log : ClientEventLog)

def known (e : NewEvent) : Bool :=
  log.rows.any fun row => row.clientId = e.clientId && row.eventId = e.eventId

/-- The row that the statement inserts. -/
def newRow (e : NewEvent) : ClientEvent where
  id := log.seq + 1
  clientId := e.clientId
  eventId := e.eventId
  type := e.type
  payload := e.payload
  ts := e.now

theorem inserted_ascending (e : NewEvent) : Ascending ClientEvent.id (log.rows ++ [log.newRow e]) :=
  log.ascending.append_singleton fun a ha => Nat.lt_succ_of_le (log.bounded a ha)

theorem inserted_unique {e : NewEvent} (h : log.known e = false) :
    (log.rows ++ [log.newRow e]).Pairwise fun a b => ¬ a.SameEvent b := by
  refine List.pairwise_append.mpr ⟨log.unique, List.pairwise_singleton _ _,
    fun a ha b hb hsame => ?_⟩
  rw [List.mem_singleton.mp hb] at hsame
  have hnot := List.any_eq_false.mp h a ha
  simp only [Bool.and_eq_true, decide_eq_true_eq] at hnot
  exact hnot hsame

/-- `append`: the id of the new row, or none for an event that is in the log. The rows are pruned in
the same transaction. -/
def append (r : Retention) (e : NewEvent) : Option Nat × ClientEventLog :=
  if h : log.known e = false then
    (some (log.seq + 1),
      { rows := prune r e.clientId e.now (log.rows ++ [log.newRow e])
        seq := log.seq + 1
        ascending := (log.inserted_ascending e).sublist (prune_sublist ..)
        bounded := fun a ha => by
          rcases List.mem_append.mp ((prune_sublist ..).subset ha) with ha | ha
          · exact Nat.le_succ_of_le (log.bounded a ha)
          · rw [List.mem_singleton.mp ha]
            exact Nat.le_refl _
        unique := (log.inserted_unique h).sublist (prune_sublist ..) })
  else (none, log)

/-- The rows of a client after the cursor. -/
def since (clientId : String) (sinceId : Nat) : List ClientEvent :=
  log.rows.filter fun e => e.clientId = clientId && sinceId < e.id

def listSince (clientId : String) (sinceId limit : Nat) : List ClientEvent :=
  (log.since clientId sinceId).take limit

variable {log} {r : Retention} {e : NewEvent} {clientId : String}

theorem append_cases (log : ClientEventLog) (r : Retention) (e : NewEvent) :
    log.known e = true ∧ log.append r e = (none, log) ∨
      log.known e = false ∧ (log.append r e).1 = some (log.newRow e).id ∧
        (log.append r e).2.seq = (log.newRow e).id ∧
        (log.append r e).2.rows = prune r e.clientId e.now (log.rows ++ [log.newRow e]) := by
  unfold append
  split
  · rename_i h
    exact .inr ⟨h, rfl, rfl, rfl⟩
  · rename_i h
    exact .inl ⟨by simpa using h, rfl⟩

theorem append_rows_sublist (log : ClientEventLog) (r : Retention) (e : NewEvent) :
    (log.append r e).2.rows.Sublist (log.rows ++ [log.newRow e]) := by
  rcases append_cases log r e with ⟨-, heq⟩ | ⟨-, -, -, hrows⟩
  · rw [heq]
    exact List.sublist_append_left ..
  · rw [hrows]
    exact prune_sublist ..

theorem append_new (h : log.known e = false) : (log.append r e).2.seq = log.seq + 1 ∧
    (log.append r e).2.rows = prune r e.clientId e.now (log.rows ++ [log.newRow e]) := by
  rcases append_cases log r e with ⟨hknown, -⟩ | ⟨-, -, hseq, hrows⟩
  · rw [h] at hknown
    cases hknown
  · exact ⟨hseq, hrows⟩

/-! ## Retention -/

/-- The events of the same client that were appended after `row`. -/
def laterOf (appended : List ClientEvent) (row : ClientEvent) : List ClientEvent :=
  appended.filter fun l => l.clientId = row.clientId && row.id < l.id

/-- Fewer than `max_per_client` events of the client came later, and none later than `max_age`. -/
structure Recent (r : Retention) (appended : List ClientEvent) (row : ClientEvent) : Prop where
  count : 0 < r.maxPerClient → (laterOf appended row).length < r.maxPerClient
  age : 0 < r.maxAgeS → ∀ l ∈ laterOf appended row, l.ts - r.maxAgeS ≤ row.ts

theorem Recent.of_append {appended : List ClientEvent} {row new : ClientEvent}
    (h : Recent r (appended ++ [new]) row) : Recent r appended row := by
  have hsub : (laterOf appended row).Sublist (laterOf (appended ++ [new]) row) :=
    (List.sublist_append_left appended [new]).filter _
  exact ⟨fun hpos => hsub.length_le.trans_lt (h.count hpos),
    fun hpos l hl => h.age hpos l (hsub.subset hl)⟩

theorem mem_pruneAge {rows : List ClientEvent} {row : ClientEvent} {now : ℚ} (hrow : row ∈ rows)
    (h : 0 < r.maxAgeS → row.clientId = clientId → now - r.maxAgeS ≤ row.ts) :
    row ∈ pruneAge r clientId now rows := by
  unfold pruneAge
  split
  · rename_i hpos
    refine List.mem_filter.mpr ⟨hrow, ?_⟩
    by_cases hclient : row.clientId = clientId
    · simpa [hclient] using h hpos hclient
    · simp [hclient]
  · exact hrow

theorem mem_pruneCount {rows : List ClientEvent} {row : ClientEvent}
    (hasc : Ascending ClientEvent.id rows) (hrow : row ∈ rows)
    (h : 0 < r.maxPerClient → row.clientId = clientId →
      (laterOf rows row).length < r.maxPerClient) :
    row ∈ pruneCount r clientId rows := by
  unfold pruneCount
  split
  · rename_i hpos
    refine List.mem_filter.mpr ⟨hrow, ?_⟩
    by_cases hclient : row.clientId = clientId
    · have hnew : row.id ∈ newest rows clientId r.maxPerClient := by
        refine (hasc.sublist List.filter_sublist).mem_newest
          (List.mem_filter.mpr ⟨hrow, by simpa⟩) ?_
        rw [List.filter_filter]
        refine Nat.lt_of_le_of_lt (Nat.le_of_eq (congrArg List.length ?_)) (h hpos hclient)
        refine List.filter_congr fun l _ => ?_
        rw [hclient, Bool.and_comm]
      simp [hnew]
    · simp [hclient]
  · exact hrow

/-- A recent row survives the pruning of an append. -/
theorem mem_append_of_recent {rows appended : List ClientEvent} {row new : ClientEvent}
    (hasc : Ascending ClientEvent.id (rows ++ [new])) (hsub : (rows ++ [new]).Sublist appended)
    (hrow : row ∈ rows ++ [new]) (hrecent : Recent r appended row) :
    row ∈ prune r new.clientId new.ts (rows ++ [new]) := by
  have hold : row ∈ rows → row.id < new.id := fun h =>
    (List.pairwise_append.mp hasc).2.2 row h new (List.mem_singleton_self new)
  refine mem_pruneCount (hasc.sublist (pruneAge_sublist ..)) (mem_pruneAge hrow ?_) ?_
  · intro hpos hclient
    rcases List.mem_append.mp hrow with h | h
    · refine hrecent.age hpos new (List.mem_filter.mpr ⟨hsub.subset (by simp), ?_⟩)
      simp [hclient, hold h]
    · rw [List.mem_singleton.mp h]
      linarith
  · intro hpos _
    have hfewer : (laterOf (pruneAge r new.clientId new.ts (rows ++ [new])) row).Sublist
        (laterOf appended row) := ((pruneAge_sublist ..).trans hsub).filter _
    exact hfewer.length_le.trans_lt (hrecent.count hpos)

end ClientEventLog

/-! ## Wakeups -/

/-- An `asyncio.Event` is a number. -/
structure ClientEventNotifier where
  /-- `_events` -/
  current : String → Option Nat := fun _ => none
  isSet : Nat → Bool := fun _ => false
  /-- the next event to be made -/
  next : Nat := 0

namespace ClientEventNotifier

/-- `event`: `setdefault`. -/
def event (n : ClientEventNotifier) (clientId : String) : Nat × ClientEventNotifier :=
  match n.current clientId with
  | some w => (w, n)
  | none =>
    (n.next,
      { n with
        current := fun c => if c = clientId then some n.next else n.current c
        next := n.next + 1 })

/-- `notify`: sets the current event and rotates to a fresh one. -/
def notify (n : ClientEventNotifier) (clientId : String) : ClientEventNotifier where
  current c := if c = clientId then some n.next else n.current c
  isSet w := n.isSet w || n.current clientId == some w
  next := n.next + 1

/-- The events are numbered as they are made, each belongs to one client, and a current one is not
set. -/
structure Fresh (n : ClientEventNotifier) : Prop where
  made : ∀ w, n.isSet w = true → w < n.next
  current : ∀ c w, n.current c = some w → w < n.next ∧ n.isSet w = false
  apart : ∀ c d w, n.current c = some w → n.current d = some w → c = d

variable {n : ClientEventNotifier}

theorem current_event (n : ClientEventNotifier) (clientId : String) :
    (n.event clientId).2.current clientId = some (n.event clientId).1 := by
  unfold event
  split
  · rename_i w hw
    exact hw
  · simp

theorem current_event_of_some {w : Nat} {c : String} (h : n.current c = some w)
    (clientId : String) : (n.event clientId).2.current c = some w := by
  unfold event
  split
  · exact h
  · rename_i hnone
    have hne : c ≠ clientId := by
      rintro rfl
      rw [h] at hnone
      cases hnone
    simp [hne, h]

theorem isSet_event (n : ClientEventNotifier) (clientId : String) :
    (n.event clientId).2.isSet = n.isSet := by
  unfold event
  split
  · rfl
  · rfl

/-- Making an event for a client, as both functions do. -/
theorem Fresh.make {isSet : Nat → Bool} (h : n.Fresh) (clientId : String)
    (hmade : ∀ w, isSet w = true → w < n.next)
    (hset : ∀ c w, c ≠ clientId → n.current c = some w → isSet w = false) :
    Fresh
      { current := fun c => if c = clientId then some n.next else n.current c
        isSet := isSet
        next := n.next + 1 } where
  made w hw := Nat.lt_succ_of_lt (hmade w hw)
  current c w hw := by
    dsimp only at hw ⊢
    split at hw
    · cases hw
      refine ⟨Nat.lt_succ_self _, Bool.eq_false_iff.mpr fun hnext => ?_⟩
      exact Nat.lt_irrefl _ (hmade n.next hnext)
    · rename_i hne
      exact ⟨Nat.lt_succ_of_lt (h.current c w hw).1, hset c w hne hw⟩
  apart c d w hc hd := by
    dsimp only at hc hd
    split at hc
    · rename_i hceq
      split at hd
      · rename_i hdeq
        rw [hceq, hdeq]
      · cases hc
        exact absurd (h.current d _ hd).1 (Nat.lt_irrefl _)
    · split at hd
      · cases hd
        exact absurd (h.current c _ hc).1 (Nat.lt_irrefl _)
      · exact h.apart c d w hc hd

theorem Fresh.event (h : n.Fresh) (clientId : String) : (n.event clientId).2.Fresh := by
  unfold ClientEventNotifier.event
  split
  · exact h
  · exact h.make clientId h.made fun c w _ hw => (h.current c w hw).2

theorem Fresh.notify (h : n.Fresh) (clientId : String) : (n.notify clientId).Fresh := by
  refine h.make clientId ?_ ?_
  · intro w hw
    rw [Bool.or_eq_true, beq_iff_eq] at hw
    exact hw.elim (h.made w) fun hcur => (h.current clientId w hcur).1
  · intro c w hne hw
    rw [(h.current c w hw).2, Bool.false_or, beq_eq_false_iff_ne]
    exact fun hcur => hne (h.apart c clientId w hw hcur)

end ClientEventNotifier

end InferenceEngine
