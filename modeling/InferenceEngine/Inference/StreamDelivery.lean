import InferenceEngine.Inference.Stream

/-!
# Inference.StreamDelivery

What a stream that nobody closes delivers.

The invariant `Open` follows every item from the producer to the consumer: what the consumer was
handed, what is queued, what is in the event loop's channel and what the worker has still to offer
are, in this order, the items of the producer (`flow`). The permits of the semaphore cover exactly
the tokens on their way (`permits`), and past its loop the worker has given one back (`spare`): that
one is the place of the terminal, which takes none.

* `open_step`: every step but `aclose` keeps `Open`.
* `rank_step`: every step lowers `rank`, so no schedule goes on for ever.
* `open_quiescent`: when no party can move, everything has been delivered.

`delivers_all` puts them together.
-/

namespace InferenceEngine

open Lts

/-- The chunks `__anext__` makes of the texts it gets. -/
def chunks (texts : List String) : List GenerationChunk :=
  texts.mapIdx fun i text => ⟨text, i⟩

/-- What a producer that nobody cancels has for its consumer. -/
def Producer.items (p : Producer) : List Item := p.yields.map .token ++ [.terminal p.terminal]

def Item.isToken : Item → Bool
  | .token _ => true
  | .terminal _ => false

def Callback.item : Callback → Option Item
  | .put item => some item
  | .fireOnDone => none

/-- The worker is past its loop. -/
def Worker.past : Worker → Bool
  | .terminal _ | .notify | .ended => true
  | _ => false

namespace Stream

/-- The items on their way to the consumer, the first to arrive first. -/
def inFlight (s : Stream) : List Item := s.queue ++ s.chan.filterMap Callback.item

/-- The items the consumer was handed. -/
def handed (s : Stream) : List Item :=
  s.parts.map .token ++ s.terminals.map .terminal

/-- The items the worker has still to offer when nobody cancels it. -/
def remaining (s : Stream) : List Item :=
  let loop := s.script.map Item.token ++ [.terminal s.producer.fin.terminal]
  match s.worker with
  | .start =>
    match s.producer.onCall with
    | some e => [.terminal ⟨.error, some e⟩]
    | none => loop
  | .loopTop | .tryAcquire | .blocked | .recheck | .next => loop
  | .offer text => .token text :: loop
  | .terminal t => [.terminal t]
  | .close | .notify | .ended => []

/-- How the consumer stands, given the terminals it was handed. -/
def Settled (s : Stream) : List Terminal → Prop
  | [] => s.exhausted = false ∧ s.result = none ∧ ∀ e, s.consumer ≠ .ended e
  | t :: _ => s.exhausted = true ∧ s.result = some (s.resultWith t.finish) ∧
      s.consumer = .ended t.error

structure Open (p : Producer) (promptTokens maxsize : Nat) (s : Stream) : Prop where
  producer : s.producer = p
  promptTokens : s.promptTokens = promptTokens
  maxsize : s.maxsize = maxsize
  positive : 1 ≤ s.maxsize
  cancel : s.cancel = false
  closing : s.closing = .notClosed
  running : s.worker ≠ .close
  flow : s.handed ++ s.inFlight ++ s.remaining = p.items
  permits : s.cap + s.worker.reserved + s.inFlight.countP Item.isToken = s.maxsize
  spare : s.worker.past = true → 1 ≤ s.cap
  bound : s.queue.length ≤ s.maxsize
  received : s.received = chunks s.parts
  index : s.index = s.parts.length
  settled : s.Settled s.terminals
  dropped : s.dropped = []
  onDone : s.onDone = s.onDoneFired.toNat
  notified : s.worker = .ended → .fireOnDone ∈ s.chan ∨ s.onDoneFired = true

variable {p : Producer} {pt m : Nat} {s s' : Stream}

theorem chunks_append (texts : List String) (text : String) :
    chunks (texts ++ [text]) = chunks texts ++ [⟨text, texts.length⟩] := by
  simp [chunks, List.mapIdx_append]

theorem open_init (p : Producer) (pt : Nat) {m : Nat} (hm : 1 ≤ m) : Open p pt m (init p pt m) where
  producer := rfl
  promptTokens := rfl
  maxsize := rfl
  positive := hm
  cancel := rfl
  closing := rfl
  running := by simp [init]
  flow := by
    cases h : p.onCall with
    | none => simp [handed, inFlight, remaining, init, Producer.items, Producer.yields,
        Producer.terminal, h]
    | some e => simp [handed, inFlight, remaining, init, Producer.items, Producer.yields,
        Producer.terminal, h]
  permits := by simp [init, inFlight, Worker.reserved]
  spare := by simp [init, Worker.past]
  bound := Nat.zero_le _
  received := by simp [init, chunks]
  index := rfl
  settled := by simp [Settled, init]
  dropped := rfl
  onDone := rfl
  notified := by simp [init]

/-- A terminal is the last item: nothing follows it. -/
theorem terminal_last {l r : List Item} {t : Terminal} (h : l ++ .terminal t :: r = p.items) :
    l = p.yields.map .token ∧ t = p.terminal ∧ r = [] := by
  rcases List.eq_nil_or_concat r with rfl | ⟨r', x, rfl⟩
  · obtain ⟨hl, ht⟩ := List.append_inj' h rfl
    simp only [List.cons.injEq, Item.terminal.injEq, and_true] at ht
    exact ⟨hl, ht, rfl⟩
  · -- the first terminal would stand among the tokens
    rw [List.concat_eq_append, ← List.cons_append, ← List.append_assoc] at h
    obtain ⟨hl, -⟩ := List.append_inj' h rfl
    have hmem : Item.terminal t ∈ p.yields.map Item.token := by
      rw [← hl]
      simp
    simp at hmem

theorem open_work (hs : Open p pt m s) {w : Worker} {cap waits : Nat} {script : List String}
    {chan : List Callback}
    (hs' : s' = { s with
      worker := w
      cap := cap
      script := script
      chan := chan
      backpressureWaits := waits })
    (hrun : w ≠ .close)
    (hflow : s'.inFlight ++ s'.remaining = s.inFlight ++ s.remaining)
    (hperm : s'.cap + s'.worker.reserved + s'.inFlight.countP Item.isToken =
      s.cap + s.worker.reserved + s.inFlight.countP Item.isToken)
    (hspare : w.past = true → 1 ≤ cap)
    (hnot : w = .ended → .fireOnDone ∈ chan) : Open p pt m s' := by
  subst hs'
  exact {
    producer := hs.producer
    promptTokens := hs.promptTokens
    maxsize := hs.maxsize
    positive := hs.positive
    cancel := hs.cancel
    closing := hs.closing
    running := hrun
    flow := by
      have := hs.flow
      rw [List.append_assoc] at this ⊢
      rw [hflow]
      exact this
    permits := hperm.trans hs.permits
    spare := hspare
    bound := hs.bound
    received := hs.received
    index := hs.index
    settled := hs.settled
    dropped := hs.dropped
    onDone := hs.onDone
    notified := fun he => .inl (hnot he) }

theorem start_cap (hs : Open p pt m s) (hw : s.worker = .start) {e : Exc}
    (ho : s.producer.onCall = some e) : 1 ≤ s.cap := by
  have hflow := hs.flow
  have hp := hs.producer
  simp only [remaining, hw, ho, Producer.items, Producer.yields, Producer.terminal, ← hp,
    List.map_nil, List.nil_append] at hflow
  have hnil := congrArg List.length hflow
  simp only [List.length_append, List.length_cons, List.length_nil] at hnil
  have hin : s.inFlight = [] := List.eq_nil_of_length_eq_zero (by omega)
  have hperm := hs.permits
  simp only [hin, hw, Worker.reserved, List.countP_nil] at hperm
  have := hs.positive
  omega

theorem step_work_open (hs : Open p pt m s) (h : s.work = some s') : Open p pt m s' := by
  have hc := hs.cancel
  cases works h with
  | startFails e hw ho =>
    refine open_work hs rfl (by simp) ?_ ?_ (fun _ => start_cap hs hw ho) (by simp)
    · simp [inFlight, remaining, hw, ho]
    · simp [inFlight, Worker.reserved, hw]
  | starts hw ho =>
    refine open_work hs rfl (by simp) ?_ ?_ (by simp [Worker.past]) (by simp)
    · simp [inFlight, remaining, hw, ho]
    · simp [inFlight, Worker.reserved, hw]
  | cancelled hw hcancel => simp [hc] at hcancel
  | loops hw _ =>
    refine open_work hs rfl (by simp) ?_ ?_ (by simp [Worker.past]) (by simp)
    · simp [inFlight, remaining, hw]
    · simp [inFlight, Worker.reserved, hw]
  | acquires hw hcap =>
    refine open_work hs rfl (by simp) ?_ ?_ (by simp [Worker.past]) (by simp)
    · rcases hw with hw | hw <;> simp [inFlight, remaining, hw]
    · rcases hw with hw | hw <;> simp only [inFlight, Worker.reserved, hw] <;> omega
  | blocks hw =>
    refine open_work hs rfl (by simp) ?_ ?_ (by simp [Worker.past]) (by simp)
    · simp [inFlight, remaining, hw]
    · simp [inFlight, Worker.reserved, hw]
  | rechecksCancelled hw hcancel => simp [hc] at hcancel
  | rechecks hw _ =>
    refine open_work hs rfl (by simp) ?_ ?_ (by simp [Worker.past]) (by simp)
    · simp [inFlight, remaining, hw]
    · simp [inFlight, Worker.reserved, hw]
  | yields text rest hw hscr =>
    refine open_work hs rfl (by simp) ?_ ?_ (by simp [Worker.past]) (by simp)
    · simp [inFlight, remaining, hw, hscr]
    · simp [inFlight, Worker.reserved, hw]
  | ends hw hscr =>
    refine open_work hs rfl (by simp) ?_ ?_ (by simp) (by simp)
    · simp [inFlight, remaining, hw, hscr, producerEnded]
    · simp [inFlight, Worker.reserved, hw, producerEnded]
  | offers text hw =>
    refine open_work hs rfl (by simp) ?_ ?_ (by simp [Worker.past]) (by simp)
    · simp [inFlight, remaining, hw, Callback.item]
    · simp only [inFlight, Worker.reserved, hw, List.filterMap_append, List.countP_append,
        List.filterMap_cons, Callback.item, List.filterMap_nil, List.countP_singleton, Item.isToken,
        if_true]
      omega
  | closes hw => exact absurd hw hs.running
  | terminates t hw =>
    refine open_work hs rfl (by simp) ?_ ?_
      (fun _ => hs.spare (by simp [hw, Worker.past])) (by simp)
    · simp [inFlight, remaining, hw, Callback.item]
    · simp [inFlight, Worker.reserved, hw, Callback.item, Item.isToken]
  | notifies hw =>
    refine open_work hs rfl (by simp) ?_ ?_
      (fun _ => hs.spare (by simp [hw, Worker.past])) (by simp)
    · simp [inFlight, remaining, hw, Callback.item]
    · simp [inFlight, Worker.reserved, hw, Callback.item]

theorem put_room (hs : Open p pt m s) {item : Item} {rest : List Callback}
    (hch : s.chan = .put item :: rest) : s.queue.length < s.maxsize := by
  -- the item follows everything in the queue, so the queue holds tokens only
  have hflow := hs.flow
  simp only [inFlight, hch, List.filterMap_cons, Callback.item] at hflow
  have htok : ∀ x ∈ s.queue, x.isToken = true := by
    intro x hx
    cases x with
    | token text => rfl
    | terminal t =>
      obtain ⟨l, r, hq⟩ := List.append_of_mem hx
      have hnil := (terminal_last (p := p) (t := t) (l := s.handed ++ l)
        (r := r ++ item :: rest.filterMap Callback.item ++ s.remaining) (by
          rw [← hflow, hq]; simp)).2.2
      simp at hnil
  have hlen : s.queue.countP Item.isToken = s.queue.length := List.countP_eq_length.mpr htok
  have hperm := hs.permits
  simp only [inFlight, hch, List.filterMap_cons, Callback.item, List.countP_append,
    List.countP_cons, hlen] at hperm
  cases item with
  | token text => simp only [Item.isToken, if_true] at hperm; omega
  | terminal t =>
    -- the worker is past its loop, so a permit is spare
    have hrem := (terminal_last (p := p) (t := t) (l := s.handed ++ s.queue)
      (r := rest.filterMap Callback.item ++ s.remaining) (by rw [← hflow]; simp)).2.2
    have hpast : s.worker.past = true := by
      have hnil := (List.append_eq_nil_iff.mp hrem).2
      have hrun := hs.running
      revert hnil hrun
      simp only [remaining]
      cases s.worker <;> simp [Worker.past]
      cases s.producer.onCall <;> simp
    have := hs.spare hpast
    omega

theorem fireOnDone_eq (h : s.onDone = s.onDoneFired.toNat) :
    s.fireOnDone = { s with
      onDoneFired := true
      onDone := 1 } := by
  simp only [fireOnDone]
  cases hf : s.onDoneFired with
  | true =>
    rw [hf, Bool.toNat_true] at h
    rw [if_pos rfl, ← hf, ← h]
  | false =>
    rw [hf, Bool.toNat_false] at h
    simp [h]

theorem step_callback_open (hs : Open p pt m s) (h : s.runCallback = some s') :
    Open p pt m s' := by
  rcases runCallback_cases h with
    ⟨item, rest, hch, hroom, rfl⟩ | ⟨item, rest, hch, hfull, -⟩ | ⟨rest, hch, rfl⟩
  · have hin : (s.queue ++ [item]) ++ rest.filterMap Callback.item = s.inFlight := by
      simp [inFlight, hch, Callback.item]
    exact { hs with
      flow := by rw [← hs.flow, ← hin]; rfl
      permits := by rw [← hs.permits, ← hin]; rfl
      bound := by
        rw [List.length_append]
        exact hroom
      notified := by
        intro he
        refine (hs.notified he).imp_left fun hmem => ?_
        simpa [hch] using hmem }
  · exact absurd (put_room hs hch) (Nat.not_lt.mpr hfull)
  · have hin : s.queue ++ rest.filterMap Callback.item = s.inFlight := by
      simp only [inFlight, hch, List.filterMap_cons, Callback.item]
    rw [fireOnDone_eq (s := { s with chan := rest }) hs.onDone]
    exact { hs with
      flow := by rw [← hs.flow, ← hin]; rfl
      permits := by rw [← hs.permits, ← hin]; rfl
      onDone := rfl
      notified := fun _ => .inr rfl }

theorem no_terminal (hs : Open p pt m s) (hcons : ∀ e, s.consumer ≠ .ended e) :
    s.terminals = [] := by
  have hset := hs.settled
  cases ht : s.terminals with
  | nil => rfl
  | cons t ts =>
    simp only [ht, Settled] at hset
    exact absurd hset.2.2 (hcons _)

/-- Whether the consumer waits or not is nobody else's business. -/
theorem consumer_open (hs : Open p pt m s) (hcons : ∀ e, s.consumer ≠ .ended e) {c : Consumer}
    (hc : ∀ e, c ≠ .ended e) : Open p pt m { s with consumer := c } := by
  have hset := hs.settled
  have hnone := no_terminal hs hcons
  simp only [hnone, Settled] at hset
  exact { hs with
    settled := by
      simp only [hnone, Settled]
      exact ⟨hset.1, hset.2.1, hc⟩ }

theorem consume_open (hs : Open p pt m s) {item : Item} {rest : List Item}
    (hq : s.queue = item :: rest) (hcons : ∀ e, s.consumer ≠ .ended e) :
    Open p pt m (s.consume rest item) := by
  have hnone := no_terminal hs hcons
  have hset := hs.settled
  simp only [hnone, Settled] at hset
  have hflow := hs.flow
  simp only [handed, inFlight, hnone, hq, List.map_nil, List.append_nil, List.cons_append] at hflow
  have hperm := hs.permits
  simp only [inFlight, hq, List.cons_append, List.countP_cons] at hperm
  have hbound : rest.length ≤ s.maxsize := by
    have := hs.bound
    rw [hq, List.length_cons] at this
    omega
  cases item with
  | token text =>
    simp only [Item.isToken, if_true] at hperm
    exact { hs with
      flow := by
        rw [← hflow]
        simp [consume, handed, inFlight, remaining, hnone]
      permits := by
        simp only [consume, inFlight]
        omega
      spare := by
        intro hp
        simp only [consume]
        omega
      bound := hbound
      received := by simp only [consume, hs.received, hs.index, chunks_append]
      index := by simp [consume, hs.index]
      settled := by
        simp only [consume, hnone, Settled]
        exact ⟨hset.1, hset.2.1, by simp⟩ }
  | terminal t =>
    simp only [Item.isToken, Bool.false_eq_true, if_false, Nat.add_zero] at hperm
    simp only [consume, finish]
    rw [fireOnDone_eq]
    · exact { hs with
        flow := by
          rw [← hflow]
          simp [handed, inFlight, remaining, hnone]
        permits := hperm
        bound := hbound
        settled := by
          simp only [hnone, List.nil_append, Settled, hset.2.1]
          exact ⟨trivial, rfl, trivial⟩
        onDone := rfl
        notified := fun _ => .inr rfl }
    · exact hs.onDone

theorem step_anext_open (hs : Open p pt m s) (h : s.anext = some s') : Open p pt m s' := by
  obtain ⟨hc, hcase⟩ := anext_cases h
  have hcons : ∀ e, s.consumer ≠ .ended e := by simp [hc]
  have hset := hs.settled
  simp only [no_terminal hs hcons, Settled] at hset
  rcases hcase with ⟨hx, -⟩ | ⟨item, rest, -, hq, rfl⟩ | ⟨-, -, rfl⟩
  · rw [hset.1] at hx; cases hx
  · exact consume_open hs hq hcons
  · exact consumer_open hs hcons (by simp)

theorem step_getResume_open (hs : Open p pt m s) (h : s.getResume = some s') : Open p pt m s' := by
  obtain ⟨hc, item, rest, hq, rfl⟩ := getResume_cases h
  exact consume_open hs hq (by simp [hc])

theorem open_step (hs : Open p pt m s) {e : Ev} (he : e ≠ .aclose) (h : step s e = some s') :
    Open p pt m s' := by
  cases e with
  | work => exact step_work_open hs h
  | stopEarly e => simp [step, hs.cancel] at h
  | closeRaises e => simp [step, hs.running] at h
  | callback => exact step_callback_open hs h
  | anext => exact step_anext_open hs h
  | getResume => exact step_getResume_open hs h
  | anextCancel =>
    simp only [step] at h
    split at h
    · rename_i hc
      cases h
      exact consumer_open hs (by simp [hc]) (by simp)
    · cases h
  | aclose => exact absurd rfl he
  | acloseResume timedOut => simp [step, acloseResume, hs.closing] at h
  | acloseCancel => simp [step, hs.closing] at h

/-- Steps the worker has left, with the steps of the others on the items it has still to offer. -/
def workerRank (s : Stream) : Nat :=
  match s.worker with
  | .start => 9 * s.script.length + 14
  | .loopTop => 9 * s.script.length + 13
  | .tryAcquire => 9 * s.script.length + 12
  | .blocked => 9 * s.script.length + 11
  | .recheck => 9 * s.script.length + 10
  | .next => 9 * s.script.length + 9
  | .offer _ => 9 * s.script.length + 17
  | .close => 9
  | .terminal _ => 8
  | .notify => 4
  | .ended => 0

def rank (s : Stream) : Nat :=
  s.workerRank + 3 * s.chan.length + 2 * s.queue.length + if s.consumer = .idle then 1 else 0

/-- A cancelled `__anext__` may be called again. -/
def retries : Ev → Nat
  | .anextCancel => 2
  | _ => 0

theorem work_rank (h : s.work = some s') : s'.rank < s.rank := by
  cases works h with
  | acquires hw _ => rcases hw with hw | hw <;> simp only [rank, workerRank, hw] <;> omega
  | yields text rest hw hscr =>
    simp only [rank, workerRank, hw, hscr, List.length_cons]
    omega
  | ends hw hscr =>
    simp only [rank, workerRank, producerEnded, hw, hscr]
    omega
  | offers text hw =>
    simp only [rank, workerRank, hw, List.length_append, List.length_singleton]
    omega
  | terminates t hw =>
    simp only [rank, workerRank, hw, List.length_append, List.length_singleton]
    omega
  | notifies hw =>
    simp only [rank, workerRank, hw, List.length_append, List.length_singleton]
    omega
  | startFails _ hw _ | starts hw _ | cancelled hw _ | loops hw _ | blocks hw
  | rechecksCancelled hw _ | rechecks hw _ | closes hw =>
    simp only [rank, workerRank, hw]
    omega

theorem callback_rank (h : s.runCallback = some s') : s'.rank < s.rank := by
  rcases runCallback_cases h with
    ⟨item, rest, hch, -, rfl⟩ | ⟨item, rest, hch, -, rfl⟩ | ⟨rest, hch, rfl⟩
  · simp only [rank, workerRank, hch, List.length_append, List.length_cons, List.length_nil]
    omega
  · simp only [rank, workerRank, hch, List.length_cons]
    omega
  · simp only [fireOnDone]
    split <;> simp only [rank, workerRank, hch, List.length_cons] <;> omega

theorem consume_rank {item : Item} {rest : List Item} (hq : s.queue = item :: rest) :
    (s.consume rest item).rank < s.rank := by
  cases item with
  | token text =>
    simp only [consume, rank, workerRank, hq, List.length_cons, if_true]
    omega
  | terminal t =>
    simp only [consume, finish, fireOnDone]
    split <;> simp only [rank, workerRank, hq, List.length_cons, reduceCtorEq, if_false] <;> omega

theorem rank_step (hs : Open p pt m s) {e : Ev} (he : e ≠ .aclose) (h : step s e = some s') :
    s'.rank < s.rank + retries e := by
  cases e with
  | work => exact work_rank h
  | stopEarly e => simp [step, hs.cancel] at h
  | closeRaises e => simp [step, hs.running] at h
  | callback => exact callback_rank h
  | anext =>
    obtain ⟨hc, ⟨-, rfl⟩ | ⟨item, rest, -, hq, rfl⟩ | ⟨-, -, rfl⟩⟩ := anext_cases h
    · simp [rank, workerRank, hc, retries]
    · exact consume_rank hq
    · simp [rank, workerRank, hc, retries]
  | getResume =>
    obtain ⟨-, item, rest, hq, rfl⟩ := getResume_cases h
    exact consume_rank hq
  | anextCancel =>
    simp only [step] at h
    split at h
    · rename_i hc
      cases h
      simp only [rank, workerRank, retries, hc]
      simp
    · cases h
  | aclose => exact absurd rfl he
  | acloseResume timedOut => simp [step, acloseResume, hs.closing] at h
  | acloseCancel => simp [step, hs.closing] at h

/-- No party can move: neither the worker, nor the event loop, nor the consumer. -/
def Quiescent (s : Stream) : Prop :=
  s.work = none ∧ s.runCallback = none ∧ s.anext = none ∧ s.getResume = none

/-- The stream has handed out all its producer had, and has said so. -/
structure Delivered (p : Producer) (promptTokens : Nat) (s : Stream) : Prop where
  received : s.received = chunks p.yields
  terminals : s.terminals = [p.terminal]
  consumer : s.consumer = .ended p.terminal.error
  result : s.result = some {
    text := String.join p.yields
    finishReason := p.terminal.finish
    promptTokens := promptTokens
    completionTokens := p.yields.length }

/-- The terminal ends the delivery: everything before it has been received, nothing follows. -/
theorem terminal_flow (hs : Open p pt m s) (ht : s.terminals ≠ []) :
    s.parts = p.yields ∧ s.terminals = [p.terminal] ∧ s.inFlight = [] := by
  obtain ⟨t, ts, hts⟩ := List.exists_cons_of_ne_nil ht
  have hflow := hs.flow
  simp only [handed, hts, List.map_cons, List.append_assoc, List.cons_append] at hflow
  obtain ⟨hparts, rfl, hnil⟩ := terminal_last hflow
  obtain ⟨hmore, hin, -⟩ : ts.map Item.terminal = [] ∧ s.inFlight = [] ∧ s.remaining = [] := by
    simpa using hnil
  rw [List.map_eq_nil_iff] at hmore
  subst hmore
  exact ⟨(List.map_inj_right (by simp)).mp hparts, hts, hin⟩

theorem delivered_of_terminal (hs : Open p pt m s) (ht : s.terminals ≠ []) : Delivered p pt s := by
  obtain ⟨hparts, hts, -⟩ := terminal_flow hs ht
  have hset := hs.settled
  simp only [hts, Settled] at hset
  refine ⟨by rw [hs.received, hparts], hts, hset.2.2, ?_⟩
  rw [hset.2.1]
  simp [resultWith, hs.index, hs.promptTokens, hparts]

theorem quiescent_ended (hs : Open p pt m s) (hw : s.work = none) (hq : s.inFlight = []) :
    s.worker = .ended := by
  have hperm := hs.permits
  have hpos := hs.positive
  simp only [work] at hw
  cases h : s.worker with
  | ended => rfl
  | blocked =>
    simp only [h] at hw
    split at hw
    · cases hw
    · simp only [hq, h, Worker.reserved, List.countP_nil] at hperm
      omega
  | close => exact absurd h hs.running
  | start => simp only [h] at hw; split at hw <;> cases hw
  | tryAcquire => simp only [h] at hw; split at hw <;> cases hw
  | recheck => simp only [h] at hw; split at hw <;> cases hw
  | next => simp only [h] at hw; split at hw <;> cases hw
  | _ => simp [h] at hw

theorem open_quiescent (hs : Open p pt m s) (hq : s.Quiescent) :
    Delivered p pt s ∧ s.onDone = 1 := by
  obtain ⟨hw, hcb, han, hgr⟩ := hq
  have hchan : s.chan = [] := by
    simp only [runCallback] at hcb
    split at hcb
    · assumption
    · cases hcb
    · cases hcb
  cases hc : s.consumer with
  | idle =>
    simp only [anext, hc] at han
    split at han
    · cases han
    · split at han <;> cases han
  | waiting =>
    exfalso
    simp only [getResume, hc] at hgr
    have hqueue : s.queue = [] := by
      cases h : s.queue with
      | nil => rfl
      | cons item rest => simp [h] at hgr
    have hin : s.inFlight = [] := by simp [inFlight, hchan, hqueue]
    -- then the worker has offered everything, and the terminal is nowhere
    have hend := quiescent_ended hs hw hin
    have hflow := hs.flow
    simp only [handed, no_terminal hs (by simp [hc]), hin, remaining, hend, List.map_nil,
      List.append_nil] at hflow
    have hmem : Item.terminal p.terminal ∈ s.parts.map Item.token := by
      rw [hflow]; simp [Producer.items]
    simp at hmem
  | ended e =>
    have ht : s.terminals ≠ [] := by
      intro hnil
      have hset := hs.settled
      simp only [hnil, Settled] at hset
      exact hset.2.2 _ hc
    have hend := quiescent_ended hs hw (terminal_flow hs ht).2.2
    have hfired : s.onDoneFired = true := by
      rcases hs.notified hend with hmem | hf
      · simp [hchan] at hmem
      · exact hf
    exact ⟨delivered_of_terminal hs ht, by rw [hs.onDone, hfired]; rfl⟩

theorem received_prefix (hs : Open p pt m s) : s.received <+: chunks p.yields := by
  have htok : s.parts.map Item.token <+: p.items := by
    rw [← hs.flow]
    simp [handed]
  rw [Producer.items, List.prefix_concat_iff] at htok
  rcases htok with heq | hpre
  · have hmem : Item.terminal p.terminal ∈ s.parts.map Item.token := by rw [heq]; simp
    simp at hmem
  · rw [List.prefix_map_iff_of_injective (fun _ _ h => Item.token.inj h)] at hpre
    obtain ⟨rest, hrest⟩ := hpre
    rw [hs.received, ← hrest, chunks, chunks, List.mapIdx_append]
    exact List.prefix_append ..

theorem sum_retries (ls : List Ev) : (ls.map retries).sum = 2 * ls.count .anextCancel := by
  induction ls with
  | nil => rfl
  | cons e ls ih =>
    rw [List.map_cons, List.sum_cons, ih, List.count_cons]
    cases e <;> simp [retries]
    omega

/-- **A stream that nobody closes delivers exactly what its producer yields.** In every run without
a call of `aclose`: no `put_nowait` finds the queue full (so nothing is lost), the queue stays
within its bound, the consumer has received a prefix of the producer's tokens, numbered from 0, and
a terminal only after all of them, and `on_done` has fired at most once. The run is no longer than
its producer and its cancelled `__anext__` calls allow, and when no party can move any more the
whole sequence, one terminal and the result have been delivered and `on_done` has fired. -/
theorem delivers_all (p : Producer) (pt : Nat) {m : Nat} (hm : 1 ≤ m) {ls : List Ev} {t : Stream}
    (h : Run step (init p pt m) ls t) (hno : Ev.aclose ∉ ls) :
    (∀ item rest, t.chan = .put item :: rest → t.queue.length < m) ∧ t.dropped = [] ∧
    t.queue.length ≤ m ∧
    t.received <+: chunks p.yields ∧ (t.terminals = [] ∨ Delivered p pt t) ∧ t.onDone ≤ 1 ∧
    ls.length ≤ 9 * p.tokens.length + 15 + 2 * ls.count .anextCancel ∧
    (t.Quiescent → Delivered p pt t ∧ t.onDone = 1) := by
  have hrun := h.restrict (p := fun e => e ≠ .aclose) fun e he heq => hno (heq ▸ he)
  have hinit := open_init p pt hm
  have hkeep : ∀ (s : Stream) (e : Ev) (s' : Stream), Open p pt m s →
      (if e ≠ .aclose then step s e else none) = some s' → Open p pt m s' := by
    intro s e s' hs hst
    split at hst
    · exact open_step hs ‹_› hst
    · cases hst
  have hlower : ∀ (s : Stream) (e : Ev) (s' : Stream), Open p pt m s →
      (if e ≠ .aclose then step s e else none) = some s' → s'.rank < s.rank + retries e := by
    intro s e s' hs hst
    split at hst
    · exact rank_step hs ‹_› hst
    · cases hst
  have hs : Open p pt m t := hrun.invariant hkeep hinit
  have hlen := hrun.length_add_le rank retries hkeep hlower hinit
  refine ⟨?_, hs.dropped, hs.maxsize ▸ hs.bound, received_prefix hs, ?_, ?_, ?_, open_quiescent hs⟩
  · intro item rest hch
    exact hs.maxsize ▸ put_room hs hch
  · by_cases ht : t.terminals = []
    · exact .inl ht
    · exact .inr (delivered_of_terminal hs ht)
  · rw [hs.onDone]
    exact Bool.toNat_le _
  · rw [sum_retries] at hlen
    have hr : (init p pt m).rank = 9 * p.tokens.length + 15 := by simp [rank, workerRank, init]
    omega

/-- Two tokens through a queue of one place: the worker runs ahead, finds no permit, and waits for
the consumer each time. -/
def twoTokens : List Ev :=
  [.anext] ++ .replicate 8 .work ++ [.callback, .getResume] ++ .replicate 6 .work ++
    [.callback, .anext] ++ .replicate 5 .work ++ [.callback, .anext, .callback]

def twoTokensProducer : Producer where
  tokens := ["a", "b"]
  fin := .returned (some .length)

def twoTokensEnd : Stream :=
  (exec step (init twoTokensProducer 3 1) twoTokens).get (by decide +kernel)

theorem delivers_all_twoTokens :
    Run step (init twoTokensProducer 3 1) twoTokens twoTokensEnd ∧ Ev.aclose ∉ twoTokens ∧
      Delivered twoTokensProducer 3 twoTokensEnd ∧ twoTokensEnd.onDone = 1 := by
  have hrun : Run step (init twoTokensProducer 3 1) twoTokens twoTokensEnd :=
    run_of_exec (by simp [twoTokensEnd])
  have hno : Ev.aclose ∉ twoTokens := by decide
  have hquiet : twoTokensEnd.Quiescent :=
    ⟨by decide +kernel, by decide +kernel, by decide +kernel, by decide +kernel⟩
  exact ⟨hrun, hno,
    (delivers_all twoTokensProducer 3 (by decide) hrun hno).2.2.2.2.2.2.2 hquiet⟩

end Stream
end InferenceEngine
