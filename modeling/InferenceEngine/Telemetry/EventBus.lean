import Mathlib.Data.List.DropRight
import InferenceEngine.Lib.Run

/-!
# Telemetry.EventBus

The event bus of the operator streams (`telemetry/events.py`). Every channel has a ring of recent
events and a set of subscriptions. A subscriber is an async generator on the loop of the publishers:
it is suspended at a `yield` or in `get`, and whatever it does between two suspensions is one step.

The log of a channel, and what is kept of a subscriber beside its code's own variables (what it
received, what became of each event, when it came and went), is there for the statements only.

The events published while a subscriber was there are, in order, those that left its queue from the
front, each delivered or dropped, and those still queued (`Ok.published`); the rest of `delivery` is
read off that.
-/

namespace InferenceEngine
namespace EventBus

open Lts

inductive EventChannel where
  | metrics
  | feed
  deriving DecidableEq

/-- An `asyncio.Event`, with the future of its one waiter: `some true` when it is resolved. -/
structure AsyncEvent where
  isSet : Bool := false
  waiter : Option Bool := none
  deriving DecidableEq

namespace AsyncEvent

def set (ev : AsyncEvent) : AsyncEvent where
  isSet := true
  waiter := ev.waiter.map fun _ => true

def clear (ev : AsyncEvent) : AsyncEvent := { ev with isSet := false }

/-- `wait` of an event that is not set: a new future. -/
def wait (ev : AsyncEvent) : AsyncEvent := { ev with waiter := some false }

end AsyncEvent

structure Subscription (α : Type) where
  maxsize : Int
  queue : List α := []
  dropped : Nat := 0
  event : AsyncEvent := {}

inductive Fate where
  | delivered
  | dropped
  deriving DecidableEq

/-- Where the generator is suspended. -/
inductive Phase (α : Type) where
  /-- at the `yield` of the history, with the events that are left of the snapshot -/
  | replaying (left : List α)
  /-- at the `yield` of a live event -/
  | live
  /-- in `get`, at `await self._event.wait()` -/
  | waiting
  /-- closed or cancelled, with the length of the log at that time -/
  | closed (logLength : Nat)

structure Consumer (α : Type) where
  sub : Subscription α
  phase : Phase α
  received : List α := []
  /-- the events that left the queue, in the order in which they did -/
  fates : List (α × Fate) := []
  replayHistory : Bool
  /-- `list(self._history[channel])`, nothing without `replay_history` -/
  snapshot : List α
  /-- the length of the log when it joined -/
  joinedAt : Nat

structure Channel (α : Type) where
  history : List α := []
  consumers : List (Consumer α) := []
  log : List α := []

structure Config where
  history : Nat := 200
  subscriberQueue : Int := 500

variable {α : Type}

namespace Subscription

/-- Does the next event push the oldest one out? -/
def full (s : Subscription α) : Bool := 0 < s.maxsize ∧ s.maxsize ≤ s.queue.length

/-- `offer`. -/
def offer (s : Subscription α) (e : α) : Subscription α where
  maxsize := s.maxsize
  queue := (if s.full then s.queue.tail else s.queue) ++ [e]
  dropped := if s.full then s.dropped + 1 else s.dropped
  event := s.event.set

/-- `get`, as far as it goes without waiting. -/
def get (s : Subscription α) : Option α × Subscription α :=
  match s.queue with
  | e :: queue => (some e, { s with queue := queue })
  | [] => (none, { s with event := s.event.clear.wait })

end Subscription

namespace Consumer

/-- An event is published on the channel: a closed generator has left `_subscribers`. -/
def offer (c : Consumer α) (e : α) : Consumer α :=
  match c.phase with
  | .closed _ => c
  | _ =>
    { c with
      sub := c.sub.offer e
      fates := c.fates ++ if c.sub.full then (c.sub.queue.take 1).map (·, .dropped) else [] }

/-- `yield await sub.get()`. -/
def pull (c : Consumer α) : Consumer α :=
  match c.sub.get with
  | (some e, sub) =>
    { c with
      sub := sub, phase := .live, received := c.received ++ [e], fates :=
        c.fates ++ [(e, .delivered)] }
  | (none, sub) => { c with sub := sub, phase := .waiting }

/-- On with the history, and with the queue after it. -/
def proceed (c : Consumer α) : List α → Consumer α
  | e :: left => { c with phase := .replaying left, received := c.received ++ [e] }
  | [] => c.pull

/-- The consumer asks for the next event. -/
def next (c : Consumer α) : Option (Consumer α) :=
  match c.phase with
  | .replaying left => some (c.proceed left)
  | .live => some c.pull
  | .waiting => none
  | .closed _ => none

/-- The future of the waiter is resolved: `get` looks at the queue again. -/
def wake (c : Consumer α) : Option (Consumer α) :=
  match c.phase, c.sub.event.waiter with
  | .waiting, some true => some { c with sub.event.waiter := none }.pull
  | _, _ => none

/-- The generator is closed or cancelled, wherever it stands. -/
def close (logLength : Nat) (c : Consumer α) : Option (Consumer α) :=
  match c.phase with
  | .closed _ => none
  | _ => some { c with phase := .closed logLength }

end Consumer

inductive Label (α : Type) where
  | publish (e : α)
  /-- the first `__anext__` of a new generator -/
  | join (replayHistory : Bool)
  | next (i : Nat)
  | wake (i : Nat)
  | close (i : Nat)

namespace Channel

/-- `publish`. -/
def publish (cfg : Config) (s : Channel α) (e : α) : Channel α where
  history := (s.history ++ [e]).rtake cfg.history
  consumers := s.consumers.map (·.offer e)
  log := s.log ++ [e]

/-- `subscribe`, up to its first suspension. -/
def join (cfg : Config) (s : Channel α) (replayHistory : Bool) : Consumer α :=
  let snapshot := if replayHistory then s.history else []
  { sub := { maxsize := cfg.subscriberQueue }
    phase := .replaying snapshot
    replayHistory := replayHistory
    snapshot := snapshot
    joinedAt := s.log.length : Consumer α }.proceed snapshot

/-- One subscriber moves. -/
def move (s : Channel α) (i : Nat) (f : Consumer α → Option (Consumer α)) : Option (Channel α) :=
  match s.consumers[i]? with
  | none => none
  | some c => (f c).map fun c' => { s with consumers := s.consumers.set i c' }

def step (cfg : Config) (s : Channel α) : Label α → Option (Channel α)
  | .publish e => some (s.publish cfg e)
  | .join replayHistory => some { s with consumers := s.consumers ++ [s.join cfg replayHistory] }
  | .next i => s.move i Consumer.next
  | .wake i => s.move i Consumer.wake
  | .close i => s.move i (Consumer.close s.log.length)

end Channel

/-- The bus: its channels share nothing. -/
abbrev Bus (α : Type) := EventChannel → Channel α

def init : Bus α := fun _ => {}

def step (cfg : Config) (b : Bus α) (l : EventChannel × Label α) : Option (Bus α) :=
  ((b l.1).step cfg l.2).map fun s => Function.update b l.1 s

/-! ## What a subscriber is given -/

/-- The live events a subscriber was given. -/
def Consumer.delivered (c : Consumer α) : List α :=
  (c.fates.filter fun f => f.2 = .delivered).map Prod.fst

/-- The events that were published while it was subscribed. -/
def Consumer.publishedTo (c : Consumer α) (log : List α) : List α :=
  match c.phase with
  | .closed logLength => (log.take logLength).drop c.joinedAt
  | _ => log.drop c.joinedAt

/-- The generator is in `_subscribers`. -/
def Phase.Open (p : Phase α) : Prop := ∀ n, p ≠ .closed n

/-- What is left of the history it is given. -/
def Phase.left : Phase α → List α
  | .replaying left => left
  | _ => []

/-- What holds of a subscriber at any time, whatever was published and whoever moved. -/
structure Ok (cfg : Config) (log : List α) (c : Consumer α) : Prop where
  maxsize : c.sub.maxsize = cfg.subscriberQueue
  joined : c.joinedAt ≤ log.length
  /-- it left after it came -/
  ended : ∀ n, c.phase = .closed n → c.joinedAt ≤ n ∧ n ≤ log.length
  snapshot : c.snapshot = if c.replayHistory then (log.take c.joinedAt).rtake cfg.history else []
  /-- the history comes before the live events -/
  received : ∃ replayed rest, c.snapshot = replayed ++ rest ∧ c.received = replayed ++ c.delivered ∧
    (c.delivered ≠ [] → rest = []) ∧ (c.phase.Open → rest = c.phase.left)
  published : c.fates.map Prod.fst ++ c.sub.queue = c.publishedTo log
  dropped : c.sub.dropped = (c.fates.filter fun f => f.2 = .dropped).length
  bound : 0 < c.sub.maxsize → (c.sub.queue.length : Int) ≤ c.sub.maxsize
  /-- a dropped event was pushed out of a full queue -/
  late : ∀ (i : Nat) e, c.fates[i]? = some (e, Fate.dropped) →
    0 < c.sub.maxsize ∧ (i : Int) + c.sub.maxsize < (c.publishedTo log).length
  /-- the waiter's future is resolved when there is something to get -/
  woken : c.phase = .waiting → ∃ resolved, c.sub.event.waiter = some resolved ∧
    (c.sub.queue ≠ [] → resolved = true)

theorem rtake_append_rtake (n : Nat) (l : List α) (e : α) :
    (l.rtake n ++ [e]).rtake n = (l ++ [e]).rtake n := by
  simp only [List.rtake, List.length_append, List.length_drop, List.length_singleton]
  rcases Nat.eq_zero_or_pos n with rfl | hn
  · simp
  · rw [List.drop_append_of_le_length (by simp; omega), List.drop_append_of_le_length (by omega),
      List.drop_drop]
    congr 2
    omega

variable {cfg : Config} {log : List α} {c c' : Consumer α} {s s' : Channel α}

theorem open_replaying {left : List α} : (Phase.replaying left).Open := by
  intro n hn
  cases hn

theorem open_live : (Phase.live : Phase α).Open := by
  intro n hn
  cases hn

theorem open_waiting : (Phase.waiting : Phase α).Open := by
  intro n hn
  cases hn

theorem publishedTo_of_open (h : c.phase.Open) : c.publishedTo log = log.drop c.joinedAt := by
  unfold Consumer.publishedTo
  split
  · next n hn => exact absurd hn (h n)
  · rfl

theorem publishedTo_of_closed {n : Nat} (h : c.phase = .closed n) :
    c.publishedTo log = (log.take n).drop c.joinedAt := by
  simp only [Consumer.publishedTo, h]

theorem offer_of_closed {n : Nat} (h : c.phase = .closed n) (e : α) : c.offer e = c := by
  simp only [Consumer.offer, h]

@[simp] theorem offer_phase (c : Consumer α) (e : α) : (c.offer e).phase = c.phase := by
  unfold Consumer.offer
  split <;> rfl

@[simp] theorem offer_joinedAt (c : Consumer α) (e : α) : (c.offer e).joinedAt = c.joinedAt := by
  unfold Consumer.offer
  split <;> rfl

theorem publishedTo_offer (hopen : c.phase.Open) (hjoined : c.joinedAt ≤ log.length) (e : α) :
    (c.offer e).publishedTo (log ++ [e]) = c.publishedTo log ++ [e] := by
  rw [publishedTo_of_open (by rwa [offer_phase]), publishedTo_of_open hopen, offer_joinedAt]
  exact List.drop_append_of_le_length hjoined

theorem offer_of_room (h : c.phase.Open) (hroom : c.sub.full = false) (e : α) :
    c.offer e =
      { c with
        sub.queue := c.sub.queue ++ [e]
        sub.event := c.sub.event.set } := by
  unfold Consumer.offer
  split
  · next n hn => exact absurd hn (h n)
  · simp [Subscription.offer, hroom]

/-- The oldest event is pushed out. -/
theorem offer_of_full (h : c.phase.Open) {d : α} {queue : List α}
    (hqueue : c.sub.queue = d :: queue) (hfull : c.sub.full = true) (e : α) :
    c.offer e =
      { c with
        sub.queue := queue ++ [e]
        sub.dropped := c.sub.dropped + 1
        sub.event := c.sub.event.set
        fates := c.fates ++ [(d, .dropped)] } := by
  unfold Consumer.offer
  split
  · next n hn => exact absurd hn (h n)
  · simp [Subscription.offer, hfull, hqueue]

theorem Ok.append_closed (h : Ok cfg log c) {n : Nat} (hn : c.phase = .closed n) (e : α) :
    Ok cfg (log ++ [e]) c := by
  have hends := h.ended n hn
  have hpub : c.publishedTo (log ++ [e]) = c.publishedTo log := by
    rw [publishedTo_of_closed hn, publishedTo_of_closed hn, List.take_append_of_le_length hends.2]
  refine ⟨h.maxsize, ?_, ?_, ?_, h.received, ?_, h.dropped, h.bound, ?_, h.woken⟩
  · have := h.joined
    rw [List.length_append]
    omega
  · intro m hm
    have hm' := h.ended m hm
    rw [List.length_append]
    omega
  · rw [List.take_append_of_le_length h.joined]
    exact h.snapshot
  · rw [hpub]
    exact h.published
  · rw [hpub]
    exact h.late

theorem Ok.offer_room (h : Ok cfg log c) (hopen : c.phase.Open)
    (hroom : c.sub.full = false) (e : α) : Ok cfg (log ++ [e]) (c.offer e) := by
  have hpub := publishedTo_offer hopen h.joined e
  rw [offer_of_room hopen hroom] at hpub ⊢
  refine ⟨h.maxsize, ?_, fun n hn => absurd hn (hopen n), ?_, h.received, ?_, h.dropped, ?_, ?_, ?_⟩
  · rw [List.length_append]
    exact Nat.le_add_right_of_le h.joined
  · rw [List.take_append_of_le_length h.joined]
    exact h.snapshot
  · rw [hpub, ← h.published, List.append_assoc]
  · intro hpos
    simp only [Subscription.full, decide_eq_false_iff_not, not_and] at hroom
    have hlt := hroom hpos
    rw [List.length_append, List.length_singleton]
    push_cast
    omega
  · intro i d hd
    obtain ⟨hpos, hlt⟩ := h.late i d hd
    refine ⟨hpos, ?_⟩
    rw [hpub, List.length_append]
    push_cast
    omega
  · intro hwait
    obtain ⟨resolved, hres, -⟩ := h.woken hwait
    exact ⟨true, by simp [AsyncEvent.set, hres], fun _ => rfl⟩

theorem Ok.offer_full (h : Ok cfg log c) (hopen : c.phase.Open)
    (hfull : c.sub.full = true) (e : α) : Ok cfg (log ++ [e]) (c.offer e) := by
  have hsize : 0 < c.sub.maxsize ∧ c.sub.maxsize ≤ c.sub.queue.length := by
    simpa [Subscription.full] using hfull
  obtain ⟨d, queue, hqueue⟩ : ∃ d queue, c.sub.queue = d :: queue := by
    refine List.exists_cons_of_length_pos ?_
    omega
  have hbound := h.bound hsize.1
  have hpublished := h.published
  rw [hqueue] at hpublished
  rw [hqueue, List.length_cons] at hsize hbound
  push_cast at hsize hbound
  have hlen := congrArg List.length hpublished
  simp only [List.length_append, List.length_map, List.length_cons] at hlen
  have hpub := publishedTo_offer hopen h.joined e
  rw [offer_of_full hopen hqueue hfull] at hpub ⊢
  refine ⟨h.maxsize, ?_, fun n hn => absurd hn (hopen n), ?_, ?_, ?_, ?_, ?_, ?_, ?_⟩
  · rw [List.length_append]
    exact Nat.le_add_right_of_le h.joined
  · rw [List.take_append_of_le_length h.joined]
    exact h.snapshot
  · have hrec := h.received
    simp only [Consumer.delivered, List.filter_append] at hrec ⊢
    simpa using hrec
  · rw [hpub, ← hpublished]
    simp
  · simp [h.dropped]
  · intro _
    rw [List.length_append, List.length_singleton]
    push_cast
    omega
  · intro i d' hd
    refine ⟨hsize.1, ?_⟩
    rw [hpub, List.length_append, ← hlen, List.length_singleton]
    rcases Nat.lt_or_ge i c.fates.length with hi | hi
    · rw [List.getElem?_append_left hi] at hd
      have hlt := (h.late i d' hd).2
      rw [← hlen] at hlt
      push_cast at hlt ⊢
      omega
    · -- the one just pushed out: behind it are the rest of a full queue and the new event
      have hi' : i < (c.fates ++ [(d, Fate.dropped)]).length :=
        (List.getElem?_eq_some_iff.mp hd).1
      rw [List.length_append, List.length_singleton] at hi'
      push_cast
      omega
  · intro hwait
    obtain ⟨resolved, hres, -⟩ := h.woken hwait
    exact ⟨true, by simp [AsyncEvent.set, hres], fun _ => rfl⟩

theorem Ok.offer (h : Ok cfg log c) (e : α) : Ok cfg (log ++ [e]) (c.offer e) := by
  by_cases hclosed : ∃ n, c.phase = .closed n
  · obtain ⟨n, hn⟩ := hclosed
    rw [offer_of_closed hn]
    exact h.append_closed hn e
  · have hopen : c.phase.Open := fun n hn => hclosed ⟨n, hn⟩
    cases hfull : c.sub.full with
    | false => exact h.offer_room hopen hfull e
    | true => exact h.offer_full hopen hfull e

/-- `get` after the history: the oldest event of the queue, or a wait. What the event of `asyncio`
was before does not matter. -/
theorem Ok.pull (h : Ok cfg log c) (hopen : c.phase.Open) (hleft : c.phase.left = [])
    (ev : AsyncEvent) : Ok cfg log { c with sub.event := ev }.pull := by
  have hpublished := h.published
  obtain ⟨replayed, rest, hsnap, hrec, -, hrest⟩ := h.received
  have hrest : rest = [] := (hrest hopen).trans hleft
  have hpub (phase : Phase α) (hphase : phase.Open) (sub : Subscription α)
      (received : List α) (fates : List (α × Fate)) :
      Consumer.publishedTo { c with
        sub := sub, phase := phase, received := received, fates := fates } log =
        c.publishedTo log := by
    rw [publishedTo_of_open hphase, publishedTo_of_open hopen]
  cases hqueue : c.sub.queue with
  | nil =>
    rw [hqueue] at hpublished
    simp only [Consumer.pull, Subscription.get, hqueue]
    refine ⟨h.maxsize, h.joined, fun n hn => absurd hn (open_waiting n), h.snapshot,
      ⟨replayed, rest, hsnap, hrec, ?_, ?_⟩, ?_, h.dropped, fun hpos => Int.le_of_lt hpos, ?_, ?_⟩
    · exact fun _ => hrest
    · exact fun _ => hrest
    · rw [hpub .waiting open_waiting]
      exact hpublished
    · rw [hpub .waiting open_waiting]
      exact h.late
    · intro _
      exact ⟨false, rfl, fun hne => absurd rfl hne⟩
  | cons e queue =>
    have hbound := h.bound
    rw [hqueue] at hpublished hbound
    simp only [Consumer.pull, Subscription.get, hqueue]
    refine ⟨h.maxsize, h.joined, fun n hn => absurd hn (open_live n), h.snapshot,
      ⟨replayed, rest, hsnap, ?_, ?_, ?_⟩, ?_, ?_, ?_, ?_, fun hwait => by cases hwait⟩
    · simp [Consumer.delivered, hrec]
    · exact fun _ => hrest
    · exact fun _ => hrest
    · rw [hpub .live open_live, ← hpublished]
      simp
    · simp [h.dropped]
    · intro hpos
      have hle := hbound hpos
      rw [List.length_cons] at hle
      push_cast at hle
      show (queue.length : Int) ≤ c.sub.maxsize
      omega
    · intro i d hd
      rw [hpub .live open_live]
      rcases Nat.lt_or_ge i c.fates.length with hi | hi
      · rw [List.getElem?_append_left hi] at hd
        exact h.late i d hd
      · rw [List.getElem?_append_right hi] at hd
        cases hk : i - c.fates.length with
        | zero => simp [hk] at hd
        | succ k => simp [hk] at hd

theorem Ok.proceed (h : Ok cfg log c) {left : List α} (hphase : c.phase = .replaying left) :
    Ok cfg log (c.proceed left) := by
  have hopen : c.phase.Open := hphase ▸ open_replaying
  cases left with
  | nil => exact h.pull hopen (by rw [hphase]; rfl) c.sub.event
  | cons e left =>
    obtain ⟨replayed, rest, hsnap, hrec, hlive, hrest⟩ := h.received
    have hrest : rest = e :: left := by rw [hrest hopen, hphase]; rfl
    have hnone : c.delivered = [] := by
      by_contra hne
      rw [hlive hne] at hrest
      cases hrest
    have hpub : Consumer.publishedTo (c.proceed (e :: left)) log = c.publishedTo log := by
      rw [publishedTo_of_open hopen, Consumer.proceed, publishedTo_of_open open_replaying]
    refine ⟨h.maxsize, h.joined, fun n hn => absurd hn (open_replaying n), h.snapshot,
      ⟨replayed ++ [e], left, ?_, ?_, ?_, ?_⟩, ?_, h.dropped, h.bound, ?_,
        fun hwait => by cases hwait⟩
    · show c.snapshot = replayed ++ [e] ++ left
      rw [hsnap, hrest, List.append_assoc, List.singleton_append]
    · show c.received ++ [e] = replayed ++ [e] ++ c.delivered
      rw [hrec, hnone, List.append_nil, List.append_nil]
    · exact fun hne => absurd hnone hne
    · exact fun _ => rfl
    · rw [hpub]
      exact h.published
    · rw [hpub]
      exact h.late

theorem Ok.next (h : Ok cfg log c) (hn : c.next = some c') : Ok cfg log c' := by
  unfold Consumer.next at hn
  split at hn
  · next left hphase =>
    cases hn
    exact h.proceed hphase
  · next hphase =>
    cases hn
    exact h.pull (hphase ▸ open_live) (by rw [hphase]; rfl) c.sub.event
  · cases hn
  · cases hn

theorem Ok.wake (h : Ok cfg log c) (hw : c.wake = some c') : Ok cfg log c' := by
  unfold Consumer.wake at hw
  split at hw
  · next hphase _ =>
    cases hw
    exact h.pull (hphase ▸ open_waiting) (by rw [hphase]; rfl) _
  · cases hw

theorem Ok.close (h : Ok cfg log c) (hc : c.close log.length = some c') : Ok cfg log c' := by
  unfold Consumer.close at hc
  split at hc
  · cases hc
  · next hopen =>
    cases hc
    have hpub : Consumer.publishedTo { c with phase := .closed log.length } log =
        c.publishedTo log := by
      rw [publishedTo_of_closed rfl, publishedTo_of_open fun n hn => hopen n hn, List.take_length]
    obtain ⟨replayed, rest, hsnap, hrec, hlive, -⟩ := h.received
    refine ⟨h.maxsize, h.joined, ?_, h.snapshot, ⟨replayed, rest, hsnap, hrec, hlive, ?_⟩, ?_,
      h.dropped, h.bound, ?_, fun hwait => by cases hwait⟩
    · intro n hn
      cases hn
      exact ⟨h.joined, le_rfl⟩
    · exact fun hno => absurd rfl (hno log.length)
    · rw [hpub]
      exact h.published
    · rw [hpub]
      exact h.late

structure Inv (cfg : Config) (s : Channel α) : Prop where
  history : s.history = s.log.rtake cfg.history
  consumers : ∀ c ∈ s.consumers, Ok cfg s.log c

theorem Inv.join (h : Inv cfg s) (replayHistory : Bool) :
    Ok cfg s.log (s.join cfg replayHistory) := by
  refine Ok.proceed ⟨rfl, le_rfl, fun n hn => absurd hn (open_replaying n), ?_, ?_, ?_, rfl, ?_,
    fun i e he => by simp at he, fun hwait => by cases hwait⟩ rfl
  · rw [List.take_length, ← h.history]
  · exact ⟨[], _, rfl, rfl, fun hne => absurd rfl hne, fun _ => rfl⟩
  · rw [publishedTo_of_open open_replaying, List.drop_length]
    rfl
  · exact fun hpos => Int.le_of_lt hpos

theorem Inv.move (h : Inv cfg s) {i : Nat} {f : Consumer α → Option (Consumer α)}
    (hf : ∀ c c', Ok cfg s.log c → f c = some c' → Ok cfg s.log c') (hm : s.move i f = some s') :
    Inv cfg s' := by
  unfold Channel.move at hm
  split at hm
  · cases hm
  · next c hc =>
    obtain ⟨c', hc', rfl⟩ := Option.map_eq_some_iff.mp hm
    refine ⟨h.history, fun d hd => ?_⟩
    rcases List.mem_or_eq_of_mem_set hd with hd | rfl
    · exact h.consumers d hd
    · exact hf c d (h.consumers c (List.mem_of_getElem? hc)) hc'

theorem Inv.step {l : Label α} (h : Inv cfg s) (hs : s.step cfg l = some s') : Inv cfg s' := by
  cases l with
  | publish e =>
    cases hs
    refine ⟨?_, fun c hc => ?_⟩
    · show (s.history ++ [e]).rtake cfg.history = (s.log ++ [e]).rtake cfg.history
      rw [h.history, rtake_append_rtake]
    · obtain ⟨d, hd, rfl⟩ := List.mem_map.mp hc
      exact (h.consumers d hd).offer e
  | join replayHistory =>
    cases hs
    refine ⟨h.history, fun c hc => ?_⟩
    rcases List.mem_append.mp hc with hc | hc
    · exact h.consumers c hc
    · rw [List.mem_singleton.mp hc]
      exact h.join replayHistory
  | next i => exact h.move (fun _ _ hok => hok.next) hs
  | wake i => exact h.move (fun _ _ hok => hok.wake) hs
  | close i => exact h.move (fun _ _ hok => hok.close) hs

theorem run_inv {b : Bus α} {ls : List (EventChannel × Label α)} (hrun : Run (step cfg) init ls b)
    (ch : EventChannel) : Inv cfg (b ch) := by
  refine hrun.invariant (P := fun b => ∀ ch, Inv cfg (b ch)) (fun b l b' hinv hs ch => ?_)
    (fun _ => ⟨by simp [init], fun c hc => by cases hc⟩) ch
  obtain ⟨s, hstep, rfl⟩ := Option.map_eq_some_iff.mp hs
  by_cases hch : ch = l.1
  · subst hch
    rw [Function.update_self]
    exact (hinv l.1).step hstep
  · rw [Function.update_of_ne hch]
    exact hinv ch

def Label.event? : Label α → Option α
  | .publish e => some e
  | _ => none

/-- What was published on a channel. -/
def publications (ch : EventChannel) (ls : List (EventChannel × Label α)) : List α :=
  (ls.filter fun l => l.1 = ch).filterMap fun l => l.2.event?

theorem publications_append (ch : EventChannel) (ls ms : List (EventChannel × Label α)) :
    publications ch (ls ++ ms) = publications ch ls ++ publications ch ms := by
  simp only [publications, List.filter_append, List.filterMap_append]

theorem move_log {i : Nat} {f : Consumer α → Option (Consumer α)} (hm : s.move i f = some s') :
    s'.log = s.log := by
  unfold Channel.move at hm
  split at hm
  · cases hm
  · obtain ⟨c', -, rfl⟩ := Option.map_eq_some_iff.mp hm
    rfl

theorem step_log {l : Label α} (ch : EventChannel) (hs : s.step cfg l = some s') :
    s'.log = s.log ++ publications ch [(ch, l)] := by
  cases l with
  | publish e =>
    cases hs
    simp [publications, Label.event?, Channel.publish]
  | join replayHistory =>
    cases hs
    simp [publications, Label.event?]
  | next i => simp [publications, Label.event?, move_log hs]
  | wake i => simp [publications, Label.event?, move_log hs]
  | close i => simp [publications, Label.event?, move_log hs]

theorem run_log {b b' : Bus α} {ls : List (EventChannel × Label α)} (hrun : Run (step cfg) b ls b')
    (ch : EventChannel) : (b' ch).log = (b ch).log ++ publications ch ls := by
  induction hrun with
  | refl => simp [publications]
  | @cons b b₁ b' l ls hs _ ih =>
    obtain ⟨s, hstep, rfl⟩ := Option.map_eq_some_iff.mp hs
    rw [ih, ← List.singleton_append, publications_append, ← List.append_assoc]
    congr 1
    by_cases hch : ch = l.1
    · subst hch
      rw [Function.update_self]
      exact step_log l.1 hstep
    · rw [Function.update_of_ne hch]
      have hnone : publications ch [l] = [] := by
        simp [publications, Ne.symm hch]
      rw [hnone, List.append_nil]

theorem length_fates (c : Consumer α) :
    c.fates.length = c.delivered.length + (c.fates.filter fun f => f.2 = .dropped).length := by
  unfold Consumer.delivered
  rw [List.length_map]
  induction c.fates with
  | nil => rfl
  | cons f fates ih =>
    obtain ⟨e, fate⟩ := f
    cases fate with
    | delivered => simp [ih, Nat.add_right_comm]
    | dropped => simp [ih, Nat.add_assoc]

/-- A waiter with a queue that is not empty has been woken, and gets the oldest event of it. -/
theorem Ok.wakes (h : Ok cfg log c) (hwait : c.phase = .waiting) (hqueue : c.sub.queue ≠ []) :
    ∃ e c', c.wake = some c' ∧ c.sub.queue = e :: c'.sub.queue ∧
      c'.received = c.received ++ [e] := by
  obtain ⟨resolved, hwaiter, hresolved⟩ := h.woken hwait
  rw [hresolved hqueue] at hwaiter
  obtain ⟨e, queue, hcons⟩ := List.exists_cons_of_ne_nil hqueue
  have hwake : c.wake = some { c with sub.event.waiter := none }.pull := by
    simp only [Consumer.wake, hwait, hwaiter]
  refine ⟨e, _, hwake, ?_, ?_⟩
  · simp [Consumer.pull, Subscription.get, hcons]
  · simp [Consumer.pull, Subscription.get, hcons]

/-- What a subscriber gets, in every run. With `log` for what was published on its channel: the
history it is given first is the end of the log when it joined, and the events published since then
are those that left its queue from the front, delivered or dropped, and those in it. -/
theorem delivery {b : Bus α} {ls : List (EventChannel × Label α)} (hrun : Run (step cfg) init ls b)
    (ch : EventChannel) (hc : c ∈ (b ch).consumers) :
    c.snapshot =
        (if c.replayHistory then ((publications ch ls).take c.joinedAt).rtake cfg.history else []) ∧
      (∃ replayed rest, c.snapshot = replayed ++ rest ∧ c.received = replayed ++ c.delivered ∧
        (c.delivered ≠ [] ∨ c.phase = .live ∨ c.phase = .waiting → rest = [])) ∧
      c.fates.map Prod.fst ++ c.sub.queue = c.publishedTo (publications ch ls) ∧
      (∀ (i : Nat) e, c.fates[i]? = some (e, Fate.dropped) → 0 < cfg.subscriberQueue ∧
        (i : Int) + cfg.subscriberQueue < (c.publishedTo (publications ch ls)).length) ∧
      c.delivered.length + c.sub.queue.length + c.sub.dropped =
        (c.publishedTo (publications ch ls)).length ∧
      (0 < cfg.subscriberQueue → (c.sub.queue.length : Int) ≤ cfg.subscriberQueue) ∧
      (c.phase = .waiting → c.sub.queue ≠ [] → ∃ e c', c.wake = some c' ∧
        c.sub.queue = e :: c'.sub.queue ∧ c'.received = c.received ++ [e]) := by
  have hlog : (b ch).log = publications ch ls := by
    rw [run_log hrun ch]
    rfl
  have hok := (run_inv hrun ch).consumers c hc
  rw [hlog] at hok
  refine ⟨hok.snapshot, ?_, hok.published, hok.maxsize ▸ hok.late, ?_,
    hok.maxsize ▸ hok.bound, hok.wakes⟩
  · obtain ⟨replayed, rest, hsnap, hrec, hlive, hrest⟩ := hok.received
    refine ⟨replayed, rest, hsnap, hrec, ?_⟩
    rintro (hne | hphase | hphase)
    · exact hlive hne
    · rw [hrest (hphase ▸ open_live), hphase]
      rfl
    · rw [hrest (hphase ▸ open_waiting), hphase]
      rfl
  · rw [← hok.published, List.length_append, List.length_map, length_fates, hok.dropped]
    omega

/-- A late subscriber with room for one event. -/
def lateSubscriber : List (EventChannel × Label Nat) :=
  [(.feed, .publish 1), (.feed, .publish 2), (.feed, .publish 3), (.feed, .join true),
    (.feed, .publish 4), (.metrics, .publish 9), (.feed, .publish 5), (.feed, .next 0),
    (.feed, .next 0), (.feed, .next 0), (.feed, .publish 6)]

/-- It is given 2 and 3 of the history and 5 of the live events, lost 4, and is woken for 6. -/
theorem delivery_lateSubscriber :
    ∃ b c, Run (step ⟨2, 1⟩) init lateSubscriber b ∧ c ∈ (b .feed).consumers ∧
      c.received = [2, 3, 5] ∧ c.sub.dropped = 1 ∧
      c.delivered.length + c.sub.queue.length + c.sub.dropped = 3 ∧
      ∃ c', c.wake = some c' ∧ c'.received = [2, 3, 5, 6] := by
  obtain ⟨b, hrun, hb⟩ : ∃ b, Run (step ⟨2, 1⟩) init lateSubscriber b ∧
      (b .feed).consumers.map (fun c => (c.received, c.sub.dropped, c.phase,
        c.sub.queue, c.joinedAt)) =
        [([2, 3, 5], 1, .waiting, [6], 3)] := run_of_exec_map rfl
  obtain ⟨c, hcons, hc⟩ := List.map_eq_singleton_iff.mp hb
  simp only [Prod.mk.injEq] at hc
  obtain ⟨hrec, hdrop, hphase, hqueue, hjoin⟩ := hc
  have hmem : c ∈ (b .feed).consumers := by
    rw [hcons]
    exact List.mem_singleton_self c
  obtain ⟨-, -, -, -, hcount, -, hwakes⟩ := delivery hrun .feed hmem
  refine ⟨b, c, hrun, hmem, hrec, hdrop, ?_, ?_⟩
  · rw [hcount, publishedTo_of_open (hphase ▸ open_waiting), hjoin]
    rfl
  · obtain ⟨e, c', hwake, hhead, hgot⟩ := hwakes hphase (by rw [hqueue]; exact List.cons_ne_nil _ _)
    rw [hqueue] at hhead
    have he : e = 6 := (List.cons.inj hhead).1.symm
    exact ⟨c', hwake, by rw [hgot, hrec, he]; rfl⟩

end EventBus
end InferenceEngine
