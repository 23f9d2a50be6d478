import InferenceEngine.Lib.Run
import InferenceEngine.Lib.Tickets

/-!
# Dashboard.LiveMetrics

The live metrics of the dashboard (`hooks/useLiveMetrics.ts`): a socket that streams snapshots,
polling while there is none, and a reconnect. A step is one event of the browser: of any socket that
was ever created, of a timer, the answer to any request in flight, or the unmounting of the view.
They come in any order that the browser allows.

The state is that of the closure, of the browser (timers, sockets, requests), and of React. `shown`
keeps what was shown, and as of when: a frame of its arrival, the answer to a poll of its request.

* `shown_in_order`: no late answer brings back what is older than what was shown.
* `view_exact`: what the view may claim, from the socket and the polling.
* `keeps_trying`: its timers, and that it never stops trying.
-/

namespace InferenceEngine
namespace LiveMetrics

open Lts Tickets

inductive ConnStatus where
  | connecting
  | live
  | polling
  | down
  deriving DecidableEq, Repr

inductive ReadyState where
  | connecting
  | opened
  | closed
  deriving DecidableEq, Repr

structure Socket where
  ready : ReadyState
  /-- a frame of it was shown -/
  delivered : Bool
  deriving DecidableEq, Repr

structure Request where
  mine : Nat
  seq : Nat
  time : Nat
  deriving DecidableEq, Repr

structure Interval where
  handle : Nat
  mine : Nat
  deriving DecidableEq, Repr

/-- Where a snapshot is from: a socket, or the polling of an epoch. -/
inductive Source where
  | frame (sock : Nat)
  | poll (mine : Nat)
  deriving DecidableEq, Repr

structure Shown (σ : Type) where
  snapshot : σ
  source : Source
  time : Nat

structure St (σ : Type) where
  now : Nat
  handles : Nat
  timeouts : List Nat
  intervals : List Interval
  sockets : List Socket
  requests : List Request
  closed : Bool
  ws : Option Nat
  retry : Option Nat
  poll : Option Nat
  epoch : Nat
  issued : Nat
  settled : Nat
  pollOk : Bool
  snapshot : Option σ
  status : ConnStatus
  fresh : Bool
  /-- the newest first -/
  shown : List (Shown σ)

inductive Answer (σ : Type) where
  | success (snap : σ)
  /-- whether the reporter of the session takes the error for the end of a session -/
  | failure (auth : Bool)

inductive Event (σ : Type) where
  | opens (sock : Nat)
  /-- none for a frame that is not JSON -/
  | message (sock : Nat) (snap : Option σ)
  | error (sock : Nat)
  | close (sock : Nat)
  | interval (timer : Interval)
  /-- whether the constructor of the socket returns -/
  | timeout (handle : Nat) (constructs : Bool)
  | answer (i : Nat) (result : Answer σ)
  | unmount

variable {σ : Type}

namespace St

def stopPolling (s : St σ) : St σ :=
  { s with
    intervals := s.intervals.filter fun timer => some timer.handle ≠ s.poll
    poll := none
    pollOk := false
    epoch := s.epoch + 1 }

def tick (s : St σ) (mine : Nat) : St σ :=
  { s with issued := s.issued + 1, requests := s.requests ++ [⟨mine, s.issued + 1, s.now⟩] }

def startPolling (s : St σ) : St σ :=
  if s.poll.isSome then s
  else
    let s : St σ :=
      { s with
        epoch := s.epoch + 1
        pollOk := false
        status := .polling
        poll := some s.handles
        handles := s.handles + 1
        intervals := s.intervals ++ [⟨s.handles, s.epoch + 1⟩] }
    s.tick s.epoch

def scheduleReconnect (s : St σ) : St σ :=
  if s.closed || s.retry.isSome then s
  else
    { s with
      retry := some s.handles
      handles := s.handles + 1
      timeouts := s.timeouts ++ [s.handles] }

/-- `lost`: none for a socket that could not be constructed. -/
def lost (s : St σ) (sock : Option Nat) : St σ :=
  if s.closed || (sock.isSome && sock ≠ s.ws) then s
  else
    { s with
      ws := none, fresh := s.fresh && (s.poll.isSome && s.pollOk) }.startPolling.scheduleReconnect

def connect (s : St σ) (constructs : Bool) : St σ :=
  if constructs then { s with
    ws := some s.sockets.length, sockets := s.sockets ++ [⟨.connecting, false⟩] }
  else s.lost none

def onopen (s : St σ) (sock : Nat) : St σ :=
  if s.closed || some sock ≠ s.ws then s
  else if s.poll.isSome && s.pollOk then s else { s with status := .connecting }

def setSnapshot (s : St σ) (snap : σ) (source : Source) (time : Nat) : St σ :=
  { s with snapshot := some snap, shown := ⟨snap, source, time⟩ :: s.shown }

def onmessage (s : St σ) (sock : Nat) (snap : Option σ) : St σ :=
  if s.closed || some sock ≠ s.ws then s
  else
    match snap with
    | none => s
    | some snap =>
      { s.stopPolling.setSnapshot snap (.frame sock) s.now with
        fresh := true
        status := .live
        sockets := s.sockets.modify sock fun k => { k with delivered := true } }

/-- `current`. -/
def current (s : St σ) (r : Request) : Bool := !s.closed && r.mine = s.epoch && s.settled < r.seq

def settle (s : St σ) (r : Request) (result : Answer σ) : St σ :=
  match result with
  | .success snap =>
    if s.current r then
      { s.setSnapshot snap (.poll r.mine) r.time with
        settled := r.seq
        pollOk := true
        fresh := true
        status := .polling }
    else s
  | .failure auth =>
    if s.closed || auth then s
    else if s.current r then { s with
      settled := r.seq, pollOk := false, fresh := false, status := .down }
    else s

/-- What the effect returns. `retry` keeps the handle of the timer that it clears. -/
def unmount (s : St σ) : St σ :=
  let s := { s with closed := true }.stopPolling
  { s with timeouts := s.timeouts.filter fun handle => some handle ≠ s.retry, ws := none }

/-- Before the effect runs. -/
def blank : St σ where
  now := 0
  handles := 0
  timeouts := []
  intervals := []
  sockets := []
  requests := []
  closed := false
  ws := none
  retry := none
  poll := none
  epoch := 0
  issued := 0
  settled := 0
  pollOk := false
  snapshot := none
  status := .connecting
  fresh := false
  shown := []

def ready (s : St σ) (sock : Nat) : Option ReadyState := s.sockets[sock]?.map (·.ready)

def become (s : St σ) (sock : Nat) (state : ReadyState) : St σ :=
  { s with sockets := s.sockets.modify sock fun k => { k with ready := state } }

/-- A timeout has fired: its callback clears the handle first. -/
def fired (s : St σ) (handle : Nat) : St σ :=
  { s with timeouts := s.timeouts.erase handle, retry := none }

def answered (s : St σ) (i : Nat) : St σ := { s with requests := s.requests.eraseIdx i }

def wait (s : St σ) : St σ := { s with now := s.now + 1 }

/-- The effect. -/
def mount (constructs : Bool) : St σ := (blank.connect constructs).wait

end St

/-- An event, if the browser may deliver it. -/
def move (s : St σ) : Event σ → Option (St σ)
  | .opens sock =>
    if s.ready sock = some .connecting then some ((s.become sock .opened).onopen sock) else none
  | .message sock snap => if s.ready sock = some .opened then some (s.onmessage sock snap) else none
  | .error sock =>
    if s.ready sock = some .connecting ∨ s.ready sock = some .opened then some (s.lost (some sock))
      else none
  | .close sock =>
    if s.ready sock = some .connecting ∨ s.ready sock = some .opened
      then some ((s.become sock .closed).lost (some sock)) else none
  | .interval timer => if timer ∈ s.intervals then some (s.tick timer.mine) else none
  | .timeout handle constructs =>
    if handle ∈ s.timeouts then some ((s.fired handle).connect constructs) else none
  | .answer i result => s.requests[i]?.map fun r => (s.answered i).settle r result
  | .unmount => if s.closed then none else some s.unmount

def step (s : St σ) (e : Event σ) : Option (St σ) := (move s e).map St.wait

/-! ## `lib/liveState.ts` -/

inductive Stale where
  | disconnected
  | awaiting
  deriving DecidableEq, Repr

inductive LiveView where
  | loading
  | unavailable
  | ready (polling : Bool)
  /-- `ready`, with `stale` -/
  | stale (reason : Stale)
  deriving DecidableEq, Repr

def liveView (status : ConnStatus) (snapshot : Option σ) (fresh : Bool) : LiveView :=
  match snapshot with
  | none => if status = .down then .unavailable else .loading
  | some _ =>
    if fresh then .ready (status = .polling)
    else .stale (if status = .down then .disconnected else .awaiting)

def staleNotice : LiveView → Option String
  | .stale .disconnected => some "Disconnected — showing the last data received; reconnecting…"
  | .stale .awaiting =>
    some "Connection interrupted — showing the last data received until new data arrives…"
  | _ => none

def St.view (s : St σ) : LiveView := liveView s.status s.snapshot s.fresh

variable {s s' : St σ} {now sock : Nat} {e : Event σ} {r : Request}

/-! ## The order of what is shown -/

/-- Whatever may still be accepted was asked for after everything that was shown. -/
structure Timed (now : Nat) (s : St σ) : Prop where
  ordered : Ordered Request.seq Request.time s.issued now s.requests
  epoch_le : ∀ r ∈ s.requests, r.mine ≤ s.epoch
  polling : ∀ r ∈ s.requests, r.mine = s.epoch → s.poll.isSome = true
  settled_le : s.settled ≤ s.issued
  newer : ∀ r ∈ s.requests, r.mine = s.epoch → s.settled < r.seq → ∀ x ∈ s.shown, x.time < r.time
  shown_lt : ∀ x ∈ s.shown, x.time < now
  sorted : s.shown.Pairwise fun x y => y.time < x.time

/-- What the order of what is shown is about. -/
structure SamePolls (s s' : St σ) : Prop where
  requests : s'.requests = s.requests
  epoch : s'.epoch = s.epoch
  poll : s'.poll = s.poll
  issued : s'.issued = s.issued
  settled : s'.settled = s.settled
  shown : s'.shown = s.shown

namespace Timed

theorem congr (h : Timed now s) (hsame : SamePolls s s') : Timed now s' := by
  obtain ⟨hrequests, hepoch, hpoll, hissued, hsettled, hshown⟩ := hsame
  constructor
  · rw [hrequests, hissued]
    exact h.ordered
  · rw [hrequests, hepoch]
    exact h.epoch_le
  · rw [hrequests, hepoch, hpoll]
    exact h.polling
  · rw [hsettled, hissued]
    exact h.settled_le
  · rw [hrequests, hepoch, hsettled, hshown]
    exact h.newer
  · rw [hshown]
    exact h.shown_lt
  · rw [hshown]
    exact h.sorted

theorem wait (h : Timed now s) : Timed (now + 1) s :=
  ⟨h.ordered.wait, h.epoch_le, h.polling, h.settled_le, h.newer,
    fun x hx => Nat.lt_succ_of_lt (h.shown_lt x hx), h.sorted⟩

theorem tick (h : Timed s.now s) (hpoll : s.poll.isSome = true) :
    Timed (s.now + 1) (s.tick s.epoch) where
  ordered := h.ordered.issue rfl rfl
  epoch_le r hr := by
    rcases List.mem_append.mp hr with hr | hr
    · exact h.epoch_le r hr
    · exact Nat.le_of_eq (by rw [List.mem_singleton.mp hr]; rfl)
  polling _ _ _ := hpoll
  settled_le := Nat.le_succ_of_le h.settled_le
  newer r hr hmine hseq x hx := by
    rcases List.mem_append.mp hr with hr | hr
    · exact h.newer r hr hmine hseq x hx
    · rw [List.mem_singleton.mp hr]
      exact h.shown_lt x hx
  shown_lt x hx := Nat.lt_succ_of_lt (h.shown_lt x hx)
  sorted := h.sorted

/-- A new epoch: no request in flight is of it. -/
theorem stopPolling (h : Timed now s) : Timed now s.stopPolling where
  ordered := h.ordered
  epoch_le r hr := Nat.le_succ_of_le (h.epoch_le r hr)
  polling r hr hmine := absurd hmine (Nat.ne_of_lt (Nat.lt_succ_of_le (h.epoch_le r hr)))
  settled_le := h.settled_le
  newer r hr hmine := absurd hmine (Nat.ne_of_lt (Nat.lt_succ_of_le (h.epoch_le r hr)))
  shown_lt := h.shown_lt
  sorted := h.sorted

theorem startPolling (h : Timed s.now s) : Timed (s.now + 1) s.startPolling := by
  unfold St.startPolling
  split
  · exact h.wait
  · have hold : ∀ r ∈ s.requests, r.mine ≠ s.epoch + 1 := fun r hr =>
      Nat.ne_of_lt (Nat.lt_succ_of_le (h.epoch_le r hr))
    refine tick (s := { s with
      epoch := s.epoch + 1, pollOk := false, status := .polling, poll := some s.handles
      handles := s.handles + 1, intervals := s.intervals ++ [⟨s.handles, s.epoch + 1⟩] }) ?_ rfl
    exact ⟨h.ordered, fun r hr => Nat.le_succ_of_le (h.epoch_le r hr),
      fun r hr hmine => absurd hmine (hold r hr), h.settled_le,
      fun r hr hmine => absurd hmine (hold r hr), h.shown_lt, h.sorted⟩

theorem scheduleReconnect (h : Timed now s) : Timed now s.scheduleReconnect := by
  unfold St.scheduleReconnect
  split
  · exact h
  · exact h.congr ⟨rfl, rfl, rfl, rfl, rfl, rfl⟩

theorem lost (h : Timed s.now s) (sock : Option Nat) : Timed (s.now + 1) (s.lost sock) := by
  unfold St.lost
  split
  · exact h.wait
  · exact scheduleReconnect (startPolling (s := { s with ws := none, fresh := _ })
      (h.congr ⟨rfl, rfl, rfl, rfl, rfl, rfl⟩))

theorem connect (h : Timed s.now s) (constructs : Bool) :
    Timed (s.now + 1) (s.connect constructs) := by
  unfold St.connect
  split
  · exact h.wait.congr ⟨rfl, rfl, rfl, rfl, rfl, rfl⟩
  · exact h.lost none

theorem onopen (h : Timed now s) : Timed now (s.onopen sock) := by
  unfold St.onopen
  split
  · exact h
  · split
    · exact h
    · exact h.congr ⟨rfl, rfl, rfl, rfl, rfl, rfl⟩

/-- A frame is newer than all. -/
theorem onmessage (h : Timed s.now s) (snap : Option σ) :
    Timed (s.now + 1) (s.onmessage sock snap) := by
  unfold St.onmessage
  split
  · exact h.wait
  · cases snap with
    | none => exact h.wait
    | some snap =>
      have hstop := h.stopPolling
      have hold : ∀ r ∈ s.requests, r.mine ≠ s.epoch + 1 := fun r hr =>
        Nat.ne_of_lt (Nat.lt_succ_of_le (h.epoch_le r hr))
      refine ⟨hstop.wait.ordered, hstop.epoch_le, fun r hr hmine => absurd hmine (hold r hr),
        hstop.settled_le, fun r hr hmine => absurd hmine (hold r hr), fun x hx => ?_,
        List.pairwise_cons.mpr ⟨h.shown_lt, h.sorted⟩⟩
      rcases List.mem_cons.mp hx with rfl | hx
      · exact Nat.lt_succ_self s.now
      · exact Nat.lt_succ_of_lt (h.shown_lt x hx)

theorem answered (h : Timed now s) (i : Nat) : Timed now (s.answered i) := by
  have hsub : ∀ r ∈ s.requests.eraseIdx i, r ∈ s.requests := fun r hr => List.mem_of_mem_eraseIdx hr
  exact ⟨h.ordered.answered i, fun r hr => h.epoch_le r (hsub r hr),
    fun r hr => h.polling r (hsub r hr), h.settled_le, fun r hr => h.newer r (hsub r hr),
    h.shown_lt, h.sorted⟩

/-- What is accepted after `r` was asked for after `r`. -/
theorem settle (h : Timed now s) (hseq : r.seq ≤ s.issued) (htime : r.time < now)
    (hnewer : r.mine = s.epoch → s.settled < r.seq → ∀ x ∈ s.shown, x.time < r.time)
    (hlater : ∀ r' ∈ s.requests, r.seq < r'.seq → r.time < r'.time) (result : Answer σ) :
    Timed now (s.settle r result) := by
  cases result with
  | success snap =>
    unfold St.settle
    dsimp only
    split
    · rename_i hcur
      simp only [St.current, Bool.and_eq_true, Bool.not_eq_true', decide_eq_true_eq] at hcur
      have hnew := hnewer hcur.1.2 hcur.2
      refine ⟨h.ordered, h.epoch_le, h.polling, hseq, fun r' hr' _ hseq' x hx => ?_, fun x hx => ?_,
        List.pairwise_cons.mpr ⟨hnew, h.sorted⟩⟩
      · rcases List.mem_cons.mp hx with rfl | hx
        · exact hlater r' hr' hseq'
        · exact Nat.lt_trans (hnew x hx) (hlater r' hr' hseq')
      · rcases List.mem_cons.mp hx with rfl | hx
        · exact htime
        · exact h.shown_lt x hx
    · exact h
  | failure auth =>
    unfold St.settle
    dsimp only
    split
    · exact h
    · split
      · rename_i hcur
        simp only [St.current, Bool.and_eq_true, Bool.not_eq_true', decide_eq_true_eq] at hcur
        exact ⟨h.ordered, h.epoch_le, h.polling, hseq,
          fun r' hr' hmine' hseq' => h.newer r' hr' hmine' (Nat.lt_trans hcur.2 hseq'),
            h.shown_lt, h.sorted⟩
      · exact h

theorem unmount (h : Timed now s) : Timed now s.unmount := by
  have hstop := stopPolling (s := { s with closed := true })
      (h.congr ⟨rfl, rfl, rfl, rfl, rfl, rfl⟩)
  exact hstop.congr ⟨rfl, rfl, rfl, rfl, rfl, rfl⟩

theorem become (h : Timed now s) (state : ReadyState) : Timed now (s.become sock state) :=
  h.congr ⟨rfl, rfl, rfl, rfl, rfl, rfl⟩

end Timed

/-! ## What the view may claim -/

namespace St

/-- The current socket has sent a frame. -/
def delivered (s : St σ) : Bool := (s.ws.bind fun sock => s.sockets[sock]?).any (·.delivered)

/-- The polling is on, and its latest answer was a snapshot. -/
def delivering (s : St σ) : Bool := s.poll.isSome && s.pollOk

def origin (s : St σ) : Option Source := s.shown.head?.map (·.source)

theorem delivered_eq_false (h : s.ws = none) : s.delivered = false := by simp [delivered, h]

theorem delivered_become (state : ReadyState) : (s.become sock state).delivered = s.delivered := by
  unfold delivered become
  cases hws : s.ws with
  | none => rfl
  | some k => by_cases hk : sock = k <;> cases hsock : s.sockets[k]?
    <;> simp [List.getElem?_modify, hk, hsock]

end St

structure Viewed (s : St σ) : Prop where
  intervals : s.intervals = s.poll.toList.map fun handle => ⟨handle, s.epoch⟩
  delivered : s.delivered = true → s.poll = none ∧ s.origin = s.ws.map .frame
  delivering : s.delivering = true → s.status = .polling ∧ s.origin = some (.poll s.epoch)
  live : s.status = .live ↔ s.delivered = true
  fresh : s.fresh = (s.delivered || s.delivering)

/-- The hook while the view is mounted: it has a socket, or it polls and a reconnect is due. -/
structure Open (s : St σ) : Prop extends Viewed s where
  timeouts : s.timeouts = s.retry.toList
  socket : s.ws.isSome = !s.retry.isSome
  fallback : s.ws = none → s.poll.isSome = true

/-- What the view claims, and what these claims are about. -/
structure SameView (s s' : St σ) : Prop where
  intervals : s'.intervals = s.intervals
  sockets : s'.sockets = s.sockets
  ws : s'.ws = s.ws
  poll : s'.poll = s.poll
  epoch : s'.epoch = s.epoch
  pollOk : s'.pollOk = s.pollOk
  status : s'.status = s.status
  fresh : s'.fresh = s.fresh
  shown : s'.shown = s.shown

theorem Viewed.congr (h : Viewed s) (hsame : SameView s s') : Viewed s' := by
  have hdelivered : s'.delivered = s.delivered := by
    simp only [St.delivered, hsame.ws, hsame.sockets]
  have hdelivering : s'.delivering = s.delivering := by
    simp only [St.delivering, hsame.poll, hsame.pollOk]
  have horigin : s'.origin = s.origin := by simp only [St.origin, hsame.shown]
  constructor
  · rw [hsame.intervals, hsame.poll, hsame.epoch]
    exact h.intervals
  · rw [hdelivered, hsame.poll, horigin, hsame.ws]
    exact h.delivered
  · rw [hdelivering, hsame.status, horigin, hsame.epoch]
    exact h.delivering
  · rw [hsame.status, hdelivered]
    exact h.live
  · rw [hsame.fresh, hdelivered, hdelivering]
    exact h.fresh

theorem Open.congr (h : Open s) (hsame : SameView s s') (htimeouts : s'.timeouts = s.timeouts)
    (hretry : s'.retry = s.retry) : Open s' where
  toViewed := h.toViewed.congr hsame
  timeouts := by rw [htimeouts, hretry, h.timeouts]
  socket := by rw [hsame.ws, hretry, h.socket]
  fallback := by rw [hsame.ws, hsame.poll]; exact h.fallback

theorem Viewed.idle (h : Viewed s) : s.stopPolling.intervals = [] := by
  simpa [St.stopPolling, h.intervals, List.filter_eq_nil_iff] using fun handle hpoll => hpoll.symm

theorem Viewed.poll_off (h : Viewed s) (hpoll : s.poll.isSome = true) : s.delivered = false :=
  Bool.eq_false_iff.mpr fun hdel => by simp [(h.delivered hdel).1] at hpoll

/-- While the current socket, if there is one, has sent nothing. -/
theorem Viewed.of_not_delivered (hoff : s.delivered = false)
    (hintervals : s.intervals = s.poll.toList.map fun handle => ⟨handle, s.epoch⟩)
    (hdelivering : s.delivering = true → s.status = .polling ∧ s.origin = some (.poll s.epoch))
    (hlive : s.status ≠ .live) (hfresh : s.fresh = s.delivering) : Viewed s where
  intervals := hintervals
  delivered hdel := absurd (hoff.symm.trans hdel) (by decide)
  delivering := hdelivering
  live := by simp [hoff, hlive]
  fresh := by rw [hoff, Bool.false_or, hfresh]

theorem Viewed.not_live (h : Viewed s) (hoff : s.delivered = false) :
    s.status ≠ .live := fun hlive =>
  absurd (hoff.symm.trans (h.live.mp hlive)) (by decide)

theorem Viewed.fresh_eq (h : Viewed s) (hoff : s.delivered = false) : s.fresh = s.delivering := by
  rw [h.fresh, hoff, Bool.false_or]

theorem Viewed.lost (h : Viewed s) {sock : Option Nat} (hopen : s.closed = false)
    (hretry : s.retry = none) (htimeouts : s.timeouts = []) (hsock : sock = none ∨ sock = s.ws) :
    Open (s.lost sock) := by
  have hcur : (s.closed || (sock.isSome && decide (sock ≠ s.ws))) = false := by
    rcases hsock with rfl | rfl <;> simp [hopen]
  unfold St.lost
  rw [hcur, if_neg Bool.false_ne_true]
  cases hpoll : s.poll with
  | none =>
    -- the polling begins
    simp only [St.startPolling, St.scheduleReconnect, St.tick, hopen, hretry, htimeouts]
    refine ⟨.of_not_delivered (St.delivered_eq_false rfl) ?_ ?_ ?_ ?_, rfl, rfl, fun _ => rfl⟩
    · simp [h.intervals, hpoll]
    · simp [St.delivering]
    · simp
    · simp [St.delivering]
  | some handle =>
    have hoff := h.poll_off (by rw [hpoll]; rfl)
    have hdelivering := h.delivering
    simp only [St.delivering, hpoll] at hdelivering
    simp only [St.startPolling, St.scheduleReconnect, hopen, hretry, htimeouts]
    refine ⟨.of_not_delivered (St.delivered_eq_false rfl) ?_ hdelivering (h.not_live hoff) ?_, rfl,
      rfl, fun _ => rfl⟩
    · simp [h.intervals, hpoll]
    · simp [h.fresh_eq hoff, St.delivering, hpoll]

theorem Viewed.connect (h : Viewed s) (hopen : s.closed = false) (hws : s.ws = none)
    (hretry : s.retry = none) (htimeouts : s.timeouts = []) (constructs : Bool) :
    Open (s.connect constructs) := by
  have hoff : s.delivered = false := St.delivered_eq_false hws
  unfold St.connect
  split
  · refine ⟨.of_not_delivered ?_ h.intervals h.delivering (h.not_live hoff) (h.fresh_eq hoff), ?_,
      ?_, ?_⟩
    · simp [St.delivered]
    · simp [htimeouts, hretry]
    · simp [hretry]
    · simp
  · exact h.lost hopen hretry htimeouts (.inl rfl)

theorem Open.become (h : Open s) (state : ReadyState) : Open (s.become sock state) where
  intervals := h.intervals
  delivered := by rw [St.delivered_become]; exact h.delivered
  delivering := h.delivering
  live := by rw [St.delivered_become]; exact h.live
  fresh := by rw [St.delivered_become]; exact h.fresh
  timeouts := h.timeouts
  socket := h.socket
  fallback := h.fallback

theorem Open.lost (h : Open s) (hopen : s.closed = false) : Open (s.lost (some sock)) := by
  by_cases hsock : some sock = s.ws
  · have hretry : s.retry = none := by
      have := h.socket
      rw [← hsock] at this
      simpa using this
    exact h.toViewed.lost hopen hretry (by rw [h.timeouts, hretry]; rfl) (.inr hsock)
  · simpa [St.lost, hsock] using h

/-- Open is not data. -/
theorem Open.onopen (h : Open s) (hsock : some sock = s.ws → s.delivered = false) :
    Open (s.onopen sock) := by
  unfold St.onopen
  split
  · exact h
  · rename_i hcur
    have hoff : s.delivered = false := hsock (by_contra fun hne => hcur (by simp [hne]))
    split
    · exact h
    · rename_i hnot
      have hidle : s.delivering = false := Bool.eq_false_iff.mpr hnot
      refine ⟨.of_not_delivered hoff h.intervals (fun hdel => ?_) (by simp) (h.fresh_eq hoff),
        h.timeouts, h.socket, h.fallback⟩
      exact absurd (hidle.symm.trans hdel) (by decide)

theorem Open.onmessage (h : Open s) (hsock : ∃ k, s.sockets[sock]? = some k) (snap : Option σ) :
    Open (s.onmessage sock snap) := by
  unfold St.onmessage
  split
  · exact h
  · rename_i hcur
    have hws : s.ws = some sock := by
      by_contra hne
      exact hcur (by simp [Ne.symm hne])
    cases snap with
    | none => exact h
    | some snap =>
      obtain ⟨k, hk⟩ := hsock
      have hdel : St.delivered { s.stopPolling.setSnapshot snap (.frame sock) s.now with
          fresh := true, status := .live
          sockets := s.sockets.modify sock fun k => { k with delivered := true } } = true := by
        simp [St.delivered, St.setSnapshot, St.stopPolling, hws, hk]
      have hidle := h.toViewed.idle
      refine ⟨⟨?_, fun _ => ⟨rfl, ?_⟩, fun hpoll => ?_, ?_, ?_⟩, h.timeouts, h.socket,
        fun hnone => ?_⟩
      · exact hidle
      · simp [St.origin, St.setSnapshot, St.stopPolling, hws]
      · cases hpoll
      · simp [hdel]
      · rw [hdel]
        rfl
      · exact absurd (hws.symm.trans hnone) (by simp)

theorem Open.settle (h : Open s) (hpoll : r.mine = s.epoch → s.poll.isSome = true)
    (result : Answer σ) :
    Open (s.settle r result) := by
  cases result with
  | success snap =>
    unfold St.settle
    dsimp only
    split
    · rename_i hcur
      simp only [St.current, Bool.and_eq_true, Bool.not_eq_true', decide_eq_true_eq] at hcur
      have hon := hpoll hcur.1.2
      refine ⟨.of_not_delivered ?_ h.intervals (fun _ => ⟨rfl, ?_⟩) (by simp) ?_, h.timeouts,
        h.socket, h.fallback⟩
      · exact h.toViewed.poll_off hon
      · simp [St.origin, St.setSnapshot, hcur.1.2]
      · simp [St.delivering, St.setSnapshot, hon]
    · exact h
  | failure auth =>
    unfold St.settle
    dsimp only
    split
    · exact h
    · split
      · rename_i hcur
        simp only [St.current, Bool.and_eq_true, Bool.not_eq_true', decide_eq_true_eq] at hcur
        refine ⟨.of_not_delivered ?_ h.intervals (fun hdel => ?_) (by simp) ?_, h.timeouts,
          h.socket, h.fallback⟩
        · exact h.toViewed.poll_off (hpoll hcur.1.2)
        · simp [St.delivering] at hdel
        · simp [St.delivering]
      · exact h

/-! ## Runs -/

/-- What a socket or a poll leaves alone unless it brings a snapshot. -/
structure Keeps (s s' : St σ) : Prop where
  now : s'.now = s.now
  closed : s'.closed = s.closed
  snapshot : s'.snapshot = s.snapshot
  shown : s'.shown = s.shown

theorem lost_keeps (s : St σ) (sock : Option Nat) :
    Keeps s (s.lost sock) ∧ (s.lost sock).sockets = s.sockets := by
  unfold St.lost St.scheduleReconnect St.startPolling
  repeat' split
  all_goals exact ⟨⟨rfl, rfl, rfl, rfl⟩, rfl⟩

theorem onopen_keeps (s : St σ) (sock : Nat) :
    Keeps s (s.onopen sock) ∧ (s.onopen sock).sockets = s.sockets := by
  unfold St.onopen
  repeat' split
  all_goals exact ⟨⟨rfl, rfl, rfl, rfl⟩, rfl⟩

theorem connect_keeps (s : St σ) (constructs : Bool) : Keeps s (s.connect constructs) := by
  unfold St.connect
  split
  · exact ⟨rfl, rfl, rfl, rfl⟩
  · exact (lost_keeps s none).1

theorem onmessage_keeps (s : St σ) (sock : Nat) (snap : Option σ) :
    (s.onmessage sock snap).now = s.now ∧ (s.onmessage sock snap).closed = s.closed := by
  unfold St.onmessage
  repeat' split
  all_goals exact ⟨rfl, rfl⟩

theorem settle_keeps (s : St σ) (r : Request) (result : Answer σ) :
    (s.settle r result).now = s.now ∧ (s.settle r result).closed = s.closed := by
  unfold St.settle
  repeat' split
  all_goals exact ⟨rfl, rfl⟩

/-- A socket of which a frame was shown is no longer connecting. -/
def Sent (sockets : List Socket) : Prop :=
  ∀ (i : Nat) (k : Socket), sockets[i]? = some k → k.delivered = true → k.ready ≠ .connecting

def Agrees (s : St σ) : Prop := s.snapshot = s.shown.head?.map (·.snapshot)

theorem Keeps.agrees (h : Keeps s s') (hs : Agrees s) : Agrees s' := by
  unfold Agrees
  rw [h.snapshot, h.shown, hs]

structure Inv (s : St σ) : Prop where
  timed : Timed s.now s
  agrees : Agrees s
  sent : Sent s.sockets
  opened : s.closed = false → Open s
  shut : s.closed = true → s.timeouts = [] ∧ s.intervals = []

inductive Moves (s : St σ) : St σ → Prop where
  | opens {sock : Nat} (h : s.ready sock = some .connecting) :
      Moves s ((s.become sock .opened).onopen sock)
  | message {sock : Nat} {snap : Option σ} (h : s.ready sock = some .opened) :
      Moves s (s.onmessage sock snap)
  | error {sock : Nat} : Moves s (s.lost (some sock))
  | close {sock : Nat} : Moves s ((s.become sock .closed).lost (some sock))
  | interval {timer : Interval} (h : timer ∈ s.intervals) : Moves s (s.tick timer.mine)
  | timeout {handle : Nat} {constructs : Bool} (h : handle ∈ s.timeouts) :
      Moves s ((s.fired handle).connect constructs)
  | answer {i : Nat} {r : Request} {result : Answer σ} (h : s.requests[i]? = some r) :
      Moves s ((s.answered i).settle r result)
  | unmount (h : s.closed = false) : Moves s s.unmount

theorem moves (hst : move s e = some s') : Moves s s' := by
  cases e with
  | answer i result =>
    obtain ⟨r, hr, rfl⟩ := Option.map_eq_some_iff.mp hst
    exact .answer hr
  | unmount =>
    simp only [move] at hst
    split at hst
    · cases hst
    · cases hst
      exact .unmount (Bool.eq_false_iff.mpr ‹_›)
  | opens | message | error | close | interval | timeout =>
    simp only [move] at hst
    split at hst
    · cases hst
      constructor
      try assumption
    · cases hst

theorem moves_keep (hst : Moves s s') :
    s'.now = s.now ∧ (s'.closed = s.closed ∨ s.closed = false ∧ s' = s.unmount) := by
  have of_keeps {u : St σ} (h : u.now = s.now ∧ u.closed = s.closed) :
      u.now = s.now ∧ (u.closed = s.closed ∨ s.closed = false ∧ u = s.unmount) := ⟨h.1, .inl h.2⟩
  cases hst with
  | @opens sock =>
    have h := (onopen_keeps (s.become sock .opened) sock).1
    exact of_keeps ⟨h.now, h.closed⟩
  | message => exact of_keeps (onmessage_keeps ..)
  | @error sock =>
    have h := (lost_keeps s (some sock)).1
    exact of_keeps ⟨h.now, h.closed⟩
  | @close sock =>
    have h := (lost_keeps (s.become sock .closed) (some sock)).1
    exact of_keeps ⟨h.now, h.closed⟩
  | interval => exact of_keeps ⟨rfl, rfl⟩
  | @timeout handle constructs =>
    have h := connect_keeps (s.fired handle) constructs
    exact of_keeps ⟨h.now, h.closed⟩
  | @answer i r result => exact of_keeps (settle_keeps (s.answered i) r result)
  | unmount hopen => exact ⟨rfl, .inr ⟨hopen, rfl⟩⟩

theorem ready_eq_some {state : ReadyState} (h : s.ready sock = some state) :
    ∃ k, s.sockets[sock]? = some k ∧ k.ready = state := Option.map_eq_some_iff.mp h

theorem Open.of_timer (h : Open s) {timer : Interval} (htimer : timer ∈ s.intervals) :
    timer.mine = s.epoch ∧ s.poll.isSome = true := by
  rw [h.intervals] at htimer
  obtain ⟨handle, hhandle, rfl⟩ := List.mem_map.mp htimer
  exact ⟨rfl, Option.isSome_iff_exists.mpr ⟨handle, Option.mem_toList.mp hhandle⟩⟩

namespace Inv

theorem of_timer (h : Inv s) {timer : Interval} (htimer : timer ∈ s.intervals) :
    s.closed = false ∧ timer.mine = s.epoch ∧ s.poll.isSome = true := by
  cases hclosed : s.closed with
  | false => exact ⟨rfl, (h.opened hclosed).of_timer htimer⟩
  | true =>
    rw [(h.shut hclosed).2] at htimer
    cases htimer

/-- The reconnect is due, so there is no socket. -/
theorem of_timeout (h : Inv s) {handle : Nat} (hhandle : handle ∈ s.timeouts) :
    s.closed = false ∧ s.ws = none ∧ s.timeouts.erase handle = [] := by
  cases hclosed : s.closed with
  | false =>
    have hopen := h.opened hclosed
    rw [hopen.timeouts] at hhandle
    have hretry : s.retry = some handle := Option.mem_toList.mp hhandle
    have hws := hopen.socket
    rw [hretry] at hws
    exact ⟨rfl, by simpa using hws, by simp [hopen.timeouts, hretry]⟩
  | true =>
    rw [(h.shut hclosed).1] at hhandle
    cases hhandle

theorem timed_moves (h : Inv s) (hst : Moves s s') : Timed (s.now + 1) s' := by
  have htimed := h.timed
  cases hst with
  | opens => exact (htimed.become _).onopen.wait
  | message => exact htimed.onmessage _
  | error => exact htimed.lost _
  | @close sock => exact Timed.lost (s := s.become sock .closed) (htimed.become _) _
  | interval htimer =>
    obtain ⟨-, hmine, hpoll⟩ := h.of_timer htimer
    rw [hmine]
    exact htimed.tick hpoll
  | timeout =>
    exact Timed.connect (s := s.fired _) (htimed.congr ⟨rfl, rfl, rfl, rfl, rfl, rfl⟩) _
  | @answer i r result hr =>
    have hmem : r ∈ s.requests := List.mem_of_getElem? hr
    exact ((htimed.answered i).settle (htimed.ordered.number_le r hmem)
      (htimed.ordered.time_lt r hmem) (htimed.newer r hmem)
      (fun r' hr' => htimed.ordered.later hmem (List.mem_of_mem_eraseIdx hr')) result).wait
  | unmount => exact htimed.unmount.wait

theorem opened_moves (h : Inv s) (hst : Moves s s') (hopen' : s'.closed = false) : Open s' := by
  cases hst with
  | @opens sock hready =>
    have hopen := h.opened ((onopen_keeps (s.become sock .opened) sock).1.closed.symm.trans hopen')
    refine (hopen.become _).onopen fun hws => ?_
    obtain ⟨k, hk, hconnecting⟩ := ready_eq_some hready
    have hws : s.ws = some sock := hws.symm
    rw [St.delivered_become, Bool.eq_false_iff]
    intro hdel
    have hkdel : k.delivered = true := by simpa [St.delivered, hws, hk] using hdel
    exact h.sent sock k hk hkdel hconnecting
  | message hready =>
    obtain ⟨k, hk, -⟩ := ready_eq_some hready
    exact (h.opened ((onmessage_keeps ..).2.symm.trans hopen')).onmessage ⟨k, hk⟩ _
  | error =>
    have hopen := (lost_keeps _ _).1.closed.symm.trans hopen'
    exact (h.opened hopen).lost hopen
  | close =>
    have hopen := (lost_keeps _ _).1.closed.symm.trans hopen'
    exact ((h.opened hopen).become _).lost hopen
  | interval =>
    exact (h.opened hopen').congr ⟨rfl, rfl, rfl, rfl, rfl, rfl, rfl, rfl, rfl⟩ rfl rfl
  | timeout hhandle =>
    obtain ⟨hclosed, hws, htimeouts⟩ := h.of_timeout hhandle
    have hopen := h.opened hclosed
    exact Viewed.connect (s := s.fired _) (hopen.toViewed.congr ⟨rfl, rfl, rfl, rfl, rfl, rfl, rfl,
      rfl, rfl⟩) hclosed hws rfl htimeouts _
  | @answer i r result hr =>
    have hsame := (settle_keeps (s.answered i) r result).2
    have hopen := h.opened (hsame.symm.trans hopen')
    exact Open.settle (s := s.answered i) (hopen.congr ⟨rfl, rfl, rfl, rfl, rfl, rfl, rfl, rfl,
      rfl⟩ rfl rfl)
      (h.timed.polling r (List.mem_of_getElem? hr)) result
  | unmount => cases hopen'

theorem agrees_moves (h : Agrees s) (hst : Moves s s') : Agrees s' := by
  cases hst with
  | @opens sock => exact (onopen_keeps (s.become sock .opened) sock).1.agrees h
  | message =>
    unfold St.onmessage
    repeat' split
    all_goals first | exact h | rfl
  | error => exact (lost_keeps ..).1.agrees h
  | @close sock => exact (lost_keeps (s.become sock .closed) _).1.agrees h
  | interval | unmount => exact h
  | @timeout handle => exact (connect_keeps (s.fired handle) _).agrees h
  | answer =>
    unfold St.settle
    repeat' split
    all_goals first | exact h | rfl

theorem sent_become {sockets : List Socket} (h : Sent sockets) (sock : Nat) {state : ReadyState}
    (hstate : state ≠ .connecting) :
    Sent (sockets.modify sock fun k => { k with ready := state }) := by
  intro i k hk hdel
  rw [List.getElem?_modify] at hk
  obtain ⟨k₀, hk₀, rfl⟩ := Option.map_eq_some_iff.mp hk
  by_cases hi : sock = i
  · simpa only [hi, if_true] using hstate
  · simp only [hi, if_false] at hdel ⊢
    exact h i k₀ hk₀ hdel

theorem sent_deliver {sockets : List Socket} (h : Sent sockets) {k : Socket}
    (hk : sockets[sock]? = some k) (hready : k.ready ≠ .connecting) :
    Sent (sockets.modify sock fun k => { k with delivered := true }) := by
  intro i k' hk' hdel
  rw [List.getElem?_modify] at hk'
  obtain ⟨k₀, hk₀, rfl⟩ := Option.map_eq_some_iff.mp hk'
  by_cases hi : sock = i
  · obtain rfl := Option.some.inj (hk.symm.trans (hi ▸ hk₀))
    simpa only [hi, if_true] using hready
  · simp only [hi, if_false] at hdel ⊢
    exact h i k₀ hk₀ hdel

theorem sent_moves (h : Sent s.sockets) (hst : Moves s s') : Sent s'.sockets := by
  cases hst with
  | @opens sock =>
    rw [(onopen_keeps (s.become sock .opened) sock).2]
    exact sent_become h sock (by decide)
  | @message sock snap hready =>
    unfold St.onmessage
    split
    · exact h
    · cases snap with
      | none => exact h
      | some snap =>
        obtain ⟨k, hk, hopened⟩ := ready_eq_some hready
        exact sent_deliver h hk (by rw [hopened]; decide)
  | error =>
    rw [(lost_keeps _ _).2]
    exact h
  | @close sock =>
    rw [(lost_keeps (s.become sock .closed) _).2]
    exact sent_become h sock (by decide)
  | interval | unmount => exact h
  | @timeout handle constructs =>
    unfold St.connect
    split
    · intro i k hk hdel
      rcases List.mem_append.mp (List.mem_of_getElem? hk) with hmem | hmem
      · obtain ⟨j, hj⟩ := List.getElem?_of_mem hmem
        exact h j k hj hdel
      · rw [List.mem_singleton.mp hmem] at hdel
        cases hdel
    · rw [(lost_keeps _ _).2]
      exact h
  | answer =>
    unfold St.settle
    repeat' split
    all_goals exact h

/-- Once the view is gone, only the browser still has something to tell. -/
theorem moves_closed (h : Inv s) (hclosed : s.closed = true) (hst : Moves s s') :
    ∃ sockets requests, s' = { s with sockets := sockets, requests := requests } := by
  obtain ⟨htimeouts, hintervals⟩ := h.shut hclosed
  cases hst with
  | opens => exact ⟨_, _, if_pos (by simp [St.become, hclosed])⟩
  | message => exact ⟨_, _, if_pos (by simp [hclosed])⟩
  | error => exact ⟨_, _, if_pos (by simp [hclosed])⟩
  | close => exact ⟨_, _, if_pos (by simp [St.become, hclosed])⟩
  | interval htimer =>
    rw [hintervals] at htimer
    cases htimer
  | timeout hhandle =>
    rw [htimeouts] at hhandle
    cases hhandle
  | @answer i r result _ =>
    refine ⟨s.sockets, s.requests.eraseIdx i, ?_⟩
    cases result <;> simp [St.settle, St.answered, St.current, hclosed]
  | unmount hopen => cases hclosed.symm.trans hopen

theorem shut_moves (h : Inv s) (hst : Moves s s') (hclosed' : s'.closed = true) :
    s'.timeouts = [] ∧ s'.intervals = [] := by
  rcases (moves_keep hst).2 with heq | ⟨hopen, rfl⟩
  · obtain ⟨sockets, requests, rfl⟩ := h.moves_closed (heq.symm.trans hclosed') hst
    exact h.shut hclosed'
  · have hopened := h.opened hopen
    refine ⟨?_, hopened.toViewed.idle⟩
    simpa [St.unmount, St.stopPolling, hopened.timeouts, List.filter_eq_nil_iff] using
      fun handle hretry => hretry.symm

theorem step (h : Inv s) (hst : step s e = some s') : Inv s' := by
  obtain ⟨u, hu, rfl⟩ := Option.map_eq_some_iff.mp hst
  have hmoves := moves hu
  have htimed := h.timed_moves hmoves
  have hagrees : Agrees u := agrees_moves h.agrees hmoves
  have hsent : Sent u.sockets := sent_moves h.sent hmoves
  have hshut : u.closed = true → u.timeouts = [] ∧ u.intervals = [] := h.shut_moves hmoves
  rw [← (moves_keep hmoves).1] at htimed
  refine ⟨?_, hagrees, hsent, fun hopen => ?_, hshut⟩
  · exact htimed.congr ⟨rfl, rfl, rfl, rfl, rfl, rfl⟩
  · exact (h.opened_moves hmoves hopen).congr ⟨rfl, rfl, rfl, rfl, rfl, rfl, rfl, rfl, rfl⟩ rfl rfl

theorem blank_timed : Timed 0 (St.blank : St σ) where
  ordered := .nil
  epoch_le := List.forall_mem_nil _
  polling := List.forall_mem_nil _
  settled_le := Nat.le_refl 0
  newer := List.forall_mem_nil _
  shown_lt := List.forall_mem_nil _
  sorted := .nil

theorem blank_viewed : Viewed (St.blank : St σ) :=
  .of_not_delivered rfl rfl (fun h => by cases h) (fun h => by cases h) rfl

theorem mount (constructs : Bool) : Inv (St.mount constructs : St σ) := by
  have hkeeps := connect_keeps (St.blank : St σ) constructs
  have htimed : Timed 1 (St.blank.connect constructs : St σ) :=
    blank_timed.connect (s := St.blank) constructs
  have hopened := blank_viewed.connect (s := (St.blank : St σ)) rfl rfl rfl rfl constructs
  have hnow : (St.blank.connect constructs : St σ).now + 1 = 1 := congrArg (· + 1) hkeeps.now
  refine ⟨?_, hkeeps.agrees rfl, ?_, fun _ => ?_, fun hclosed => ?_⟩
  · rw [← hnow] at htimed
    exact htimed.congr ⟨rfl, rfl, rfl, rfl, rfl, rfl⟩
  · cases constructs with
    | true =>
      intro i k hk hdel
      rw [List.mem_singleton.mp (List.mem_of_getElem? hk)] at hdel
      cases hdel
    | false => exact fun i k hk => by cases hk
  · exact hopened.congr ⟨rfl, rfl, rfl, rfl, rfl, rfl, rfl, rfl, rfl⟩ rfl rfl
  · cases hkeeps.closed.symm.trans hclosed

end Inv

theorem run_inv {constructs : Bool} {es : List (Event σ)} {t : St σ}
    (hrun : Run step (St.mount constructs) es t) :
    Inv t :=
  hrun.invariant (fun _ _ _ h hst => h.step hst) (Inv.mount constructs)

/-- What is shown never goes back: of two snapshots, the one shown later is a frame that arrived, or
the answer to a poll that was asked, after the other did. -/
theorem shown_in_order {constructs : Bool} {es : List (Event σ)} {t : St σ}
    (hrun : Run step (St.mount constructs) es t) :
    t.snapshot = t.shown.head?.map (·.snapshot) ∧
      t.shown.Pairwise fun later earlier => earlier.time < later.time :=
  ⟨(run_inv hrun).agrees, (run_inv hrun).timed.sorted⟩

/-- A late answer to the first poll, and the frame that ends the polling. -/
def lateAnswer : List (Event Nat) :=
  [.close 0, .interval ⟨0, 1⟩, .answer 1 (.success 20), .answer 0 (.success 10), .timeout 1 true,
    .opens 1, .message 1 (some 30)]

theorem shown_in_order_lateAnswer : ∃ t : St Nat, Run step (St.mount true) lateAnswer t ∧
    t.shown.map (·.snapshot) = [30, 20] ∧
      t.shown.Pairwise fun later earlier => earlier.time < later.time := by
  obtain ⟨t, hrun, hshown⟩ : ∃ t : St Nat, Run step (St.mount true) lateAnswer t ∧
      t.shown.map (·.snapshot) = [30, 20] := run_of_exec_map rfl
  exact ⟨t, hrun, hshown, (shown_in_order hrun).2⟩

theorem Agrees.isSome (h : Agrees s) {source : Source} (horigin : s.origin = some source) :
    s.snapshot.isSome = true := by
  obtain ⟨x, hx, -⟩ := Option.map_eq_some_iff.mp horigin
  rw [h, hx]
  rfl

theorem Viewed.isSome (h : Viewed s) (hagrees : Agrees s) (hfresh : s.fresh = true) :
    s.snapshot.isSome = true := by
  rw [h.fresh, Bool.or_eq_true] at hfresh
  rcases hfresh with hdel | hdel
  · obtain ⟨k, hk, -⟩ := (Option.any_eq_true _ _).mp hdel
    obtain ⟨sock, hws, -⟩ := Option.bind_eq_some_iff.mp hk
    exact hagrees.isSome ((h.delivered hdel).2.trans (congrArg _ hws))
  · exact hagrees.isSome (h.delivering hdel).2

theorem Viewed.view_fresh (h : Viewed s) (hagrees : Agrees s) (hfresh : s.fresh = true) :
    s.view = .ready s.delivering := by
  obtain ⟨snap, hsnap⟩ := Option.isSome_iff_exists.mp (h.isSome hagrees hfresh)
  have hpolling : decide (s.status = .polling) = s.delivering := by
    cases hdel : s.delivering with
    | true => simp [(h.delivering hdel).1]
    | false =>
      rw [h.fresh, hdel, Bool.or_false] at hfresh
      simp [h.live.mpr hfresh]
  simp [St.view, liveView, hsnap, hfresh, hpolling]

theorem view_retained (hfresh : s.fresh = false) :
    (staleNotice s.view).isSome = s.snapshot.isSome ∧ ∀ polling, s.view ≠ .ready polling := by
  unfold St.view liveView
  rw [hfresh]
  cases s.snapshot with
  | none => by_cases hdown : s.status = .down <;> simp [hdown, staleNotice]
  | some snap => by_cases hdown : s.status = .down <;> simp [hdown, staleNotice]

/-- While the view is mounted it presents its snapshot as live exactly if the current socket has
sent it, and as current by polling exactly if the polling is on and its latest answer was a
snapshot; the snapshot is from there. Otherwise what it has is shown with a notice. -/
theorem view_exact {constructs : Bool} {es : List (Event σ)} {t : St σ}
    (hrun : Run step (St.mount constructs) es t) (hopen : t.closed = false) :
    (t.view = .ready false ↔ t.delivered = true) ∧ (t.view = .ready true ↔ t.delivering = true) ∧
      (t.delivered = true → t.origin = t.ws.map .frame) ∧
      (t.delivering = true → t.origin = some (.poll t.epoch)) ∧
      ((staleNotice t.view).isSome = true ↔
        t.snapshot.isSome = true ∧ t.delivered = false ∧ t.delivering = false) := by
  have hagrees := (run_inv hrun).agrees
  have hview := ((run_inv hrun).opened hopen).toViewed
  have hboth : t.delivered = true → t.delivering = false := fun hdel => by
    simp [St.delivering, (hview.delivered hdel).1]
  refine ⟨?_, ?_, fun hdel => (hview.delivered hdel).2, fun hdel => (hview.delivering hdel).2, ?_⟩
  all_goals
    cases hfresh : t.fresh with
    | false =>
      obtain ⟨hnotice, hready⟩ := view_retained hfresh
      have hnone := hview.fresh.symm.trans hfresh
      rw [Bool.or_eq_false_iff] at hnone
      simp [hnotice, hready, hnone]
    | true =>
      have hsome := hview.fresh.symm.trans hfresh
      rw [hview.view_fresh hagrees hfresh]
      cases hdel : t.delivered with
      | true => simp [hboth hdel, staleNotice]
      | false =>
        rw [hdel, Bool.false_or] at hsome
        simp [hsome, staleNotice]

/-- The polling delivers while the second socket is connecting. -/
def reconnecting : List (Event Nat) :=
  [.close 0, .answer 0 (.success 10), .timeout 1 true, .opens 1]

theorem view_exact_reconnecting : ∃ t : St Nat, Run step (St.mount true) reconnecting t ∧
    t.view = .ready true ∧ t.origin = some (.poll 1) := by
  obtain ⟨t, hrun, ht⟩ : ∃ t : St Nat, Run step (St.mount true) reconnecting t ∧
      (t.closed, t.delivering, t.epoch) = (false, true, 1) := run_of_exec_map rfl
  simp only [Prod.mk.injEq] at ht
  obtain ⟨hopen, hdel, hepoch⟩ := ht
  obtain ⟨-, hready, -, horigin, -⟩ := view_exact hrun hopen
  exact ⟨t, hrun, hready.mpr hdel, hepoch ▸ horigin hdel⟩

/-- What is gone of the hook when its view is unmounted. -/
structure Gone (s : St σ) : Prop where
  inv : Inv s
  closed : s.closed = true

theorem Gone.run {es : List (Event σ)} {t : St σ} (h : Gone s) (hrun : Run step s es t) :
    Gone t ∧ ∃ now sockets requests,
      t = { s with now := now, sockets := sockets, requests := requests } := by
  induction hrun with
  | refl => exact ⟨h, _, _, _, rfl⟩
  | @cons s s' t e es hst _ ih =>
    have hinv := h.inv.step hst
    obtain ⟨u, hu, rfl⟩ := Option.map_eq_some_iff.mp hst
    obtain ⟨sockets, requests, rfl⟩ := h.inv.moves_closed h.closed (moves hu)
    obtain ⟨hgone, now', sockets', requests', rfl⟩ := ih ⟨hinv, h.closed⟩
    exact ⟨hgone, now', sockets', requests', rfl⟩

/-- While the view is mounted the hook has a socket and no reconnect pending, or one reconnect
pending, no socket, and its polling on; it never has two timers of a kind. Once unmounted it has no
timer, shows nothing more and asks for nothing more, whatever still arrives. -/
theorem keeps_trying {constructs : Bool} {es : List (Event σ)} {t : St σ}
    (hrun : Run step (St.mount constructs) es t) :
    (t.closed = false →
      (t.ws.isSome = true ∧ t.timeouts = [] ∨
        t.ws = none ∧ t.poll.isSome = true ∧ ∃ handle, t.timeouts = [handle] ∧
        t.retry = some handle) ∧
      t.intervals = t.poll.toList.map fun handle => ⟨handle, t.epoch⟩) ∧
    (t.closed = true → ∀ es' t', Run step t es' t' →
      t'.timeouts = [] ∧ t'.intervals = [] ∧ t'.shown = t.shown ∧ t'.issued = t.issued ∧
      t'.view = t.view) := by
  have hinv := run_inv hrun
  refine ⟨fun hopen => ?_, fun hclosed es' t' hrun' => ?_⟩
  · have hopened := hinv.opened hopen
    refine ⟨?_, hopened.intervals⟩
    have hsocket := hopened.socket
    cases hretry : t.retry with
    | none => exact .inl ⟨by simpa [hretry] using hsocket, by rw [hopened.timeouts, hretry]; rfl⟩
    | some handle =>
      have hws : t.ws = none := by simpa [hretry] using hsocket
      exact .inr ⟨hws, hopened.fallback hws, handle, by rw [hopened.timeouts, hretry]; rfl, rfl⟩
  · obtain ⟨hgone, now, sockets, requests, rfl⟩ := Gone.run ⟨hinv, hclosed⟩ hrun'
    obtain ⟨htimeouts, hintervals⟩ := hgone.inv.shut hclosed
    exact ⟨htimeouts, hintervals, rfl, rfl, rfl⟩

/-- The view goes while a poll is in flight and a reconnect is pending. -/
theorem keeps_trying_unmount : ∃ t : St Nat, Run step (St.mount false) [.unmount] t ∧
    ∃ t', Run step t [.answer 0 (.success 10)] t' ∧ t'.shown = [] ∧ t'.timeouts = [] := by
  obtain ⟨t, hrun, ht⟩ : ∃ t : St Nat, Run step (St.mount false) [.unmount] t ∧
      (t.closed, t.requests.length, t.shown.length) = (true, 1, 0) := run_of_exec_map rfl
  simp only [Prod.mk.injEq] at ht
  obtain ⟨hclosed, hrequests, hshown⟩ := ht
  obtain ⟨r, hr⟩ := List.length_eq_one_iff.mp hrequests
  have hst : step t (.answer 0 (.success 10)) =
      some ((t.answered 0).settle r (.success 10)).wait := by
    simp [step, move, hr]
  obtain ⟨htimeouts, -, hsame, -⟩ := (keeps_trying hrun).2 hclosed _ _ (.single hst)
  exact ⟨t, hrun, _, .single hst, hsame.trans (List.eq_nil_of_length_eq_zero hshown), htimeouts⟩

end LiveMetrics
end InferenceEngine
