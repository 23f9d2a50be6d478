import Mathlib.Data.List.Nodup
import InferenceEngine.Lib.PyStr
import InferenceEngine.Lib.Run
import InferenceEngine.Billing.ClientEvents

/-!
# Billing.ClientStream

A client that follows its events over any number of connections (`sse_event_stream` in
`api/client_router.py`), while events of all clients are appended and pruned. Everything runs on one
event loop, so a step of the stream goes from one suspension to the next, and an emission appends
and notifies without one in between.

* `FeedState.step`: emissions, the generator of the stream, the client at the other end, and the
  loss of what is under way when a connection breaks.
* `FeedState.Moves`: what one step can do; every invariant goes by its cases.
* `FeedState.Inv`: the frames shown so far, those of the page being sent, and what the reads have
  found pruned account for every event up to the position of the stream.
* `frames_exact`: what the client receives over all its connections.
-/

namespace InferenceEngine

open Feed Lts

/-! ## The resume point -/

/-- The digits of a decimal number, with single underscores between them. -/
def decimal : List Char → Bool
  | [] => false
  | [c] => c.isDigit
  | c :: '_' :: cs => c.isDigit && decimal cs
  | c :: cs => c.isDigit && decimal cs

/-- `int(raw)` of a text of ASCII, of at most 4300 digits; none for a `ValueError`. -/
def int (raw : String) : Option Int :=
  let value (ds : List Char) : Option Int :=
    if decimal ds then some (Nat.ofDigitChars 10 (ds.filter (· ≠ '_')) 0) else none
  match Py.stripBlank raw.toList with
  | '-' :: ds => (value ds).map fun n => -n
  | '+' :: ds => value ds
  | ds => value ds

/-- `_cursor`: an empty header counts as none. -/
def cursorOf (lastEventId since : Option String) : Nat :=
  match (lastEventId.filter fun raw => !raw.isEmpty).or since with
  | none => 0
  | some raw => ((int raw).map fun n => (max 0 n).toNat).getD 0

theorem decimal_digits {cs : List Char} (hne : cs ≠ []) (h : ∀ c ∈ cs, c.isDigit = true) :
    decimal cs = true := by
  induction cs with
  | nil => exact absurd rfl hne
  | cons c cs ih =>
    have hc := h c (List.mem_cons_self ..)
    cases cs with
    | nil => exact hc
    | cons d ds =>
      have hrest := ih (List.cons_ne_nil d ds) fun x hx => h x (List.mem_cons_of_mem c hx)
      have hd : d ≠ '_' := by
        rintro rfl
        exact absurd (h '_' (by simp)) (by decide)
      rw [decimal]
      · rw [hc, hrest]
        rfl
      · intro heq
        cases heq
      · intro cs' heq
        exact hd (List.cons.inj heq).1

theorem toList_toString (n : Nat) : (toString n).toList = Nat.toDigits 10 n := Nat.toList_repr

theorem int_toString (n : Nat) : int (toString n) = some (n : Int) := by
  have hdigits : ∀ c ∈ Nat.toDigits 10 n, c.isDigit = true := fun c hc =>
    Nat.isDigit_of_mem_toDigits (by decide) (by decide) hc
  have hfilter : (Nat.toDigits 10 n).filter (· ≠ '_') = Nat.toDigits 10 n := by
    refine List.filter_eq_self.mpr fun c hc => ?_
    rw [decide_eq_true_eq]
    rintro rfl
    exact absurd (hdigits '_' hc) (by decide)
  unfold int
  rw [toList_toString, Py.stripBlank_clean fun c hc => Py.isSpace_of_isDigit (hdigits c hc)]
  dsimp only
  split
  · rename_i ds heq
    exact absurd (hdigits '-' (by simp [heq])) (by decide)
  · rename_i ds heq
    exact absurd (hdigits '+' (by simp [heq])) (by decide)
  · rw [if_pos (decimal_digits Nat.toDigits_ne_nil hdigits), hfilter, Nat.ofDigitChars_ten_toDigits]

theorem cursorOf_id (n : Nat) :
    cursorOf (some (toString n)) none = n ∧ cursorOf none (some (toString n)) = n := by
  have hne : (toString n).isEmpty = false := by
    rw [Bool.eq_false_iff, ne_eq, String.isEmpty_iff]
    intro hempty
    have htext := toList_toString n
    rw [hempty] at htext
    exact Nat.toDigits_ne_nil htext.symm
  have hvalue : ((int (toString n)).map fun n => (max 0 n).toNat).getD 0 = n := by
    rw [int_toString]
    simp
  constructor
  · simp only [cursorOf, Option.filter_some, hne, Bool.not_false, if_true, Option.some_or, hvalue]
  · simp only [cursorOf, Option.filter_none, Option.none_or, hvalue]

/-- `_sse_frame`. -/
def sseFrame (e : ClientEvent) : String :=
  "id: " ++ toString e.id ++ "\nevent: " ++ e.type ++ "\ndata: " ++ e.payload ++ "\n\n"

/-- What a client of the stream takes from the first line of a frame as its last event id. -/
def frameId (frame : String) : String :=
  String.ofList ((frame.toList.drop "id: ".length).takeWhile (· ≠ '\n'))

theorem frameId_sseFrame (e : ClientEvent) : frameId (sseFrame e) = toString e.id := by
  have hline : ∀ c ∈ (toString e.id).toList, decide (c ≠ '\n') = true := by
    intro c hc
    rw [toList_toString] at hc
    have hdigit := Nat.isDigit_of_mem_toDigits (by decide) (by decide) hc
    rw [decide_eq_true_eq]
    rintro rfl
    exact absurd hdigit (by decide)
  unfold frameId sseFrame
  simp only [String.toList_append, List.append_assoc]
  rw [show "id: ".length = "id: ".toList.length from rfl, List.drop_left,
    List.takeWhile_append_of_pos hline]
  have hnext : ("\nevent: ".toList ++ (e.type.toList ++ ("\ndata: ".toList ++ (e.payload.toList ++
      "\n\n".toList)))).takeWhile (fun c => decide (c ≠ '\n')) = [] := rfl
  rw [hnext, List.append_nil, String.ofList_toList]

/-! ## The stream and its client -/

inductive StreamPc where
  /-- at `yield b": connected"` -/
  | connected
  /-- at the frame of `event`, with the rest of its page -/
  | sending (event : ClientEvent) (rest : List ClientEvent)
  /-- in `is_disconnected` -/
  | checking
  /-- in `wait_for` -/
  | waiting
  | keepAlive
  deriving DecidableEq, Repr

structure EventStream where
  cursor : Nat
  waiter : Nat := 0
  pc : StreamPc := .connected
  deriving DecidableEq, Repr

/-- The generator goes on at the top of its loop, or is to wait there. -/
def EventStream.AtTop (stream : EventStream) : Prop :=
  stream.pc = .connected ∨ stream.pc = .keepAlive ∨ stream.pc = .waiting

theorem EventStream.AtTop.not_sending {stream : EventStream} (h : stream.AtTop) (e : ClientEvent)
    (rest : List ClientEvent) : stream.pc ≠ .sending e rest := by
  rcases h with hpc | hpc | hpc
  · simp [hpc]
  · simp [hpc]
  · simp [hpc]

theorem EventStream.AtTop.not_checking {stream : EventStream} (h : stream.AtTop) :
    stream.pc ≠ .checking := by
  rcases h with hpc | hpc | hpc
  · simp [hpc]
  · simp [hpc]
  · simp [hpc]

inductive FeedLabel where
  /-- `ClientEventEmitter.emit`, for any client -/
  | emit (e : ClientEventLog.NewEvent)
  /-- another stream asks for the wakeup of a client -/
  | subscribe (clientId : String)
  /-- the client connects with the id of the last frame it received, as header or as `since` -/
  | connect (asHeader : Bool)
  /-- the generator goes on to its next suspension -/
  | resume
  /-- the heartbeat of `wait_for` -/
  | timeout
  /-- the client receives the next frame that was sent -/
  | receive
  /-- the connection breaks, and the frames under way are lost -/
  | disconnect
  deriving DecidableEq, Repr

structure FeedState where
  log : ClientEventLog := .empty
  notifier : ClientEventNotifier := {}
  stream : Option EventStream := none
  /-- frames that were sent and not received yet -/
  wire : List ClientEvent := []
  /-- the frames of all connections -/
  received : List ClientEvent := []
  /-- every row that was ever inserted -/
  appended : List ClientEvent := []
  /-- the client's events that a read with an earlier cursor has found pruned -/
  missed : List ClientEvent := []

namespace FeedState

/-- The limit of the stream's reads. -/
def pageSize : Nat := 200

def emit (s : FeedState) (r : Retention) (e : ClientEventLog.NewEvent) : FeedState :=
  match s.log.append r e with
  | (none, _) => s
  | (some _, log) =>
    { s with
      log := log
      notifier := s.notifier.notify e.clientId
      appended := s.appended ++ [s.log.newRow e] }

/-- The client's events after the cursor that are not in the log any more. -/
def pruned (s : FeedState) (me : String) (cursor : Nat) : List ClientEvent :=
  s.appended.filter fun e => e.clientId = me && cursor < e.id && !s.log.rows.contains e

/-- Sends the first frame of a page, if there is one. -/
def send (s : FeedState) (stream : EventStream) : List ClientEvent → FeedState
  | [] => { s with stream := some { stream with pc := .checking } }
  | e :: rest =>
    { s with stream := some { stream with pc := .sending e rest }, wire := s.wire ++ [e] }

/-- The top of the loop: the wakeup is captured before the log is read. -/
def read (s : FeedState) (me : String) (cursor : Nat) : FeedState :=
  let (waiter, notifier) := s.notifier.event me
  { s with notifier := notifier, missed := s.missed ++ s.pruned me cursor }.send
    { cursor := cursor, waiter := waiter } (s.log.listSince me cursor pageSize)

/-- One step of the generator; none while it waits for a wakeup that is not set. -/
def resume (s : FeedState) (me : String) (stream : EventStream) : Option FeedState :=
  match stream.pc with
  | .connected | .keepAlive => some (s.read me stream.cursor)
  | .sending event rest => some (s.send { stream with cursor := event.id } rest)
  | .checking => some { s with stream := some { stream with pc := .waiting } }
  | .waiting => if s.notifier.isSet stream.waiter then some (s.read me stream.cursor) else none

/-- The id of the last frame the client received, as the client sends it back. -/
def lastEventId (s : FeedState) : Option String :=
  s.received.getLast?.map fun e => frameId (sseFrame e)

def step (r : Retention) (me : String) (s : FeedState) : FeedLabel → Option FeedState
  | .emit e => some (s.emit r e)
  | .subscribe clientId => some { s with notifier := (s.notifier.event clientId).2 }
  | .connect asHeader =>
    match s.stream with
    | some _ => none
    | none =>
      let cursor := if asHeader then cursorOf s.lastEventId none else cursorOf none s.lastEventId
      some { s with stream := some { cursor := cursor } }
  | .resume => s.stream.bind (s.resume me)
  | .timeout =>
    match s.stream with
    | some stream =>
      if stream.pc = .waiting then some { s with stream := some { stream with pc := .keepAlive } }
      else none
    | none => none
  | .receive =>
    match s.wire with
    | [] => none
    | e :: wire => some { s with wire := wire, received := s.received ++ [e] }
  | .disconnect => some { s with stream := none, wire := [] }

/-! ## What a step does -/

variable {r : Retention} {me : String} {s s' t : FeedState} {l : FeedLabel}

theorem emit_cases (s : FeedState) (r : Retention) (e : ClientEventLog.NewEvent) :
    s.log.known e = true ∧ s.emit r e = s ∨
      s.log.known e = false ∧ s.emit r e =
        { s with
          log := (s.log.append r e).2
          notifier := s.notifier.notify e.clientId
          appended := s.appended ++ [s.log.newRow e] } := by
  unfold emit
  rcases ClientEventLog.append_cases s.log r e with ⟨hknown, heq⟩ | ⟨hknown, hid, -⟩
  · rw [heq]
    exact .inl ⟨hknown, rfl⟩
  · refine .inr ⟨hknown, ?_⟩
    rcases hres : s.log.append r e with ⟨_ | id, log⟩
    · rw [hres] at hid
      cases hid
    · rfl

theorem cursor_connect (s : FeedState) (asHeader : Bool) :
    (if asHeader then cursorOf s.lastEventId none else cursorOf none s.lastEventId) =
      last ClientEvent.id s.received := by
  unfold lastEventId last
  cases s.received.getLast? with
  | none => cases asHeader <;> rfl
  | some e =>
    simp only [Option.map_some, frameId_sseFrame]
    cases asHeader with
    | true => exact (cursorOf_id e.id).1
    | false => exact (cursorOf_id e.id).2

inductive Moves (r : Retention) (me : String) (s : FeedState) : FeedLabel → FeedState → Prop where
  | emit (e : ClientEventLog.NewEvent) : Moves r me s (.emit e) (s.emit r e)
  | subscribe (clientId : String) :
      Moves r me s (.subscribe clientId) { s with notifier := (s.notifier.event clientId).2 }
  | connect (asHeader : Bool) : s.stream = none →
      Moves r me s (.connect asHeader)
        { s with stream := some { cursor := last ClientEvent.id s.received } }
  | read {stream : EventStream} : s.stream = some stream → stream.AtTop →
      Moves r me s .resume (s.read me stream.cursor)
  | next {stream : EventStream} {e : ClientEvent} {rest : List ClientEvent} :
      s.stream = some stream → stream.pc = .sending e rest →
      Moves r me s .resume (s.send { stream with cursor := e.id } rest)
  | park {stream : EventStream} : s.stream = some stream → stream.pc = .checking →
      Moves r me s .resume { s with stream := some { stream with pc := .waiting } }
  | beat {stream : EventStream} : s.stream = some stream → stream.pc = .waiting →
      Moves r me s .timeout { s with stream := some { stream with pc := .keepAlive } }
  | receive {e : ClientEvent} {wire : List ClientEvent} : s.wire = e :: wire →
      Moves r me s .receive { s with wire := wire, received := s.received ++ [e] }
  | disconnect : Moves r me s .disconnect { s with stream := none, wire := [] }

theorem moves_of_resume {stream : EventStream} (hstream : s.stream = some stream)
    (h : s.resume me stream = some s') : Moves r me s .resume s' := by
  unfold resume at h
  split at h
  · rename_i hpc
    cases h
    exact .read hstream (.inl hpc)
  · rename_i hpc
    cases h
    exact .read hstream (.inr (.inl hpc))
  · rename_i e rest hpc
    cases h
    exact .next hstream hpc
  · rename_i hpc
    cases h
    exact .park hstream hpc
  · rename_i hpc
    split at h
    · cases h
      exact .read hstream (.inr (.inr hpc))
    · cases h

theorem moves_of_step (h : s.step r me l = some s') : Moves r me s l s' := by
  cases l with
  | emit e =>
    cases h
    exact .emit e
  | subscribe clientId =>
    cases h
    exact .subscribe clientId
  | connect asHeader =>
    simp only [step] at h
    split at h
    · cases h
    · rename_i hstream
      rw [cursor_connect] at h
      cases h
      exact .connect asHeader hstream
  | resume =>
    obtain ⟨stream, hstream, h⟩ := Option.bind_eq_some_iff.mp h
    exact moves_of_resume hstream h
  | timeout =>
    simp only [step] at h
    split at h
    · rename_i stream hstream
      split at h
      · rename_i hpc
        cases h
        exact .beat hstream hpc
      · cases h
    · cases h
  | receive =>
    simp only [step] at h
    split at h
    · cases h
    · rename_i e wire hwire
      cases h
      exact .receive hwire
  | disconnect =>
    cases h
    exact .disconnect

theorem send_frame (s : FeedState) (stream : EventStream) (page : List ClientEvent) :
    (s.send stream page).log = s.log ∧ (s.send stream page).appended = s.appended ∧
      (s.send stream page).notifier = s.notifier := by
  cases page with
  | nil => exact ⟨rfl, rfl, rfl⟩
  | cons e rest => exact ⟨rfl, rfl, rfl⟩

/-- The log is written by emissions only, and the other steps make a wakeup at most. -/
theorem step_writes (hstep : s.step r me l = some s') :
    (∃ e, l = .emit e ∧ s' = s.emit r e) ∨
      (∀ e, l ≠ .emit e) ∧ s'.log = s.log ∧ s'.appended = s.appended ∧
        (s'.notifier = s.notifier ∨ ∃ clientId, s'.notifier = (s.notifier.event clientId).2) := by
  cases moves_of_step hstep with
  | emit e => exact .inl ⟨e, rfl, rfl⟩
  | subscribe clientId => exact .inr ⟨by simp, rfl, rfl, .inr ⟨clientId, rfl⟩⟩
  | read hstream htop =>
    obtain ⟨hlog, happended, hnotifier⟩ := send_frame
      { s with notifier := (s.notifier.event me).2, missed := s.missed ++ s.pruned me _ } _ _
    exact .inr ⟨by simp, hlog, happended, .inr ⟨me, hnotifier⟩⟩
  | next hstream hpc =>
    obtain ⟨hlog, happended, hnotifier⟩ := send_frame s _ _
    exact .inr ⟨by simp, hlog, happended, .inl hnotifier⟩
  | connect | park | beat | receive | disconnect => exact .inr ⟨by simp, rfl, rfl, .inl rfl⟩

/-! ## The invariant -/

/-- The frames of all connections, those under way included. -/
def shown (s : FeedState) : List ClientEvent := s.received ++ s.wire

def position (s : FeedState) : Nat := last ClientEvent.id s.shown

/-- What is left of a page: the client's next events, but for those that were pruned. -/
structure Page (me : String) (s : FeedState) (page : List ClientEvent) : Prop where
  ascending : Ascending ClientEvent.id page
  ahead : ∀ f ∈ page, s.position < f.id
  mine : ∀ f ∈ page, f ∈ s.appended ∧ f.clientId = me
  kept : ∀ f ∈ page, f ∉ s.missed
  covers : ∀ f ∈ page, ∀ a ∈ s.appended, a.clientId = me → a.id ≤ f.id →
    a ∈ s.shown ∨ a ∈ page ∨ a ∈ s.missed

/-- The log, and the account of the client's events up to the position of the stream. -/
structure Account (me : String) (s : FeedState) : Prop where
  rows : s.log.rows.Sublist s.appended
  appended : Ascending ClientEvent.id s.appended
  positive : ∀ e ∈ s.appended, 0 < e.id
  bounded : ∀ e ∈ s.appended, e.id ≤ s.log.seq
  shown : Ascending ClientEvent.id s.shown
  mine : ∀ e ∈ s.shown, e ∈ s.appended ∧ e.clientId = me
  covers : ∀ a ∈ s.appended, a.clientId = me → a.id ≤ s.position → a ∈ s.shown ∨ a ∈ s.missed
  gone : ∀ e ∈ s.missed, e ∈ s.appended ∧ e ∉ s.log.rows ∧ e ∉ s.shown

/-- The generator is at the position, or about to be. -/
def Follows (me : String) (s : FeedState) (stream : EventStream) : Prop :=
  match stream.pc with
  | .sending e rest => e.id = s.position ∧ Page me s rest
  | _ => stream.cursor = s.position

structure Inv (me : String) (s : FeedState) : Prop extends Account me s where
  unplugged : s.stream = none → s.wire = []
  follows : ∀ stream, s.stream = some stream → Follows me s stream

theorem init_inv (me : String) : Inv me {} where
  rows := List.Sublist.refl []
  appended := .nil
  positive := by simp
  bounded := by simp
  shown := .nil
  mine := by simp [FeedState.shown]
  covers := by simp
  gone := by simp
  unplugged _ := rfl
  follows := by simp

theorem Account.congr (h : Account me s) (hlog : s'.log = s.log) (hshown : s'.shown = s.shown)
    (happended : s'.appended = s.appended) (hmissed : s'.missed = s.missed) : Account me s' := by
  have hposition : s'.position = s.position := congrArg (last ClientEvent.id) hshown
  exact
    { rows := by rw [hlog, happended]; exact h.rows
      appended := by rw [happended]; exact h.appended
      positive := by rw [happended]; exact h.positive
      bounded := by rw [happended, hlog]; exact h.bounded
      shown := by rw [hshown]; exact h.shown
      mine := by rw [hshown, happended]; exact h.mine
      covers := by rw [happended, hposition, hshown, hmissed]; exact h.covers
      gone := by rw [hmissed, happended, hlog, hshown]; exact h.gone }

theorem Page.congr {page : List ClientEvent} (h : Page me s page) (hshown : s'.shown = s.shown)
    (happended : s'.appended = s.appended) (hmissed : s'.missed = s.missed) : Page me s' page := by
  have hposition : s'.position = s.position := congrArg (last ClientEvent.id) hshown
  exact
    { ascending := h.ascending
      ahead := by rw [hposition]; exact h.ahead
      mine := by rw [happended]; exact h.mine
      kept := by rw [hmissed]; exact h.kept
      covers := by rw [happended, hshown, hmissed]; exact h.covers }

theorem Follows.congr {stream : EventStream} (h : Follows me s stream) (hshown : s'.shown = s.shown)
    (happended : s'.appended = s.appended) (hmissed : s'.missed = s.missed) :
    Follows me s' stream := by
  have hposition : s'.position = s.position := congrArg (last ClientEvent.id) hshown
  unfold Follows at h ⊢
  split at h
  · rw [hposition]
    exact ⟨h.1, h.2.congr hshown happended hmissed⟩
  · rw [hposition]
    exact h

theorem Follows.cursor {stream : EventStream} (h : Follows me s stream)
    (hpc : ∀ e rest, stream.pc ≠ .sending e rest) : stream.cursor = s.position := by
  unfold Follows at h
  split at h
  · rename_i e rest heq
    exact absurd heq (hpc e rest)
  · exact h

theorem Account.position_le (h : Account me s) : s.position ≤ s.log.seq := by
  unfold position last
  cases hlast : s.shown.getLast? with
  | none => exact Nat.zero_le _
  | some e => exact h.bounded e (h.mine e (List.mem_of_getLast? hlast)).1

/-- A stream that sends nothing and is at the position. -/
theorem Account.plug {stream : EventStream} (h : Account me s)
    (hpc : ∀ e rest, stream.pc ≠ .sending e rest) (hcursor : stream.cursor = s.position) :
    Inv me { s with stream := some stream } := by
  have haccount : Account me { s with stream := some stream } := h.congr rfl rfl rfl rfl
  refine
    { haccount with
      unplugged := fun hnone => by cases hnone
      follows := fun stream' hstream => ?_ }
  cases hstream
  unfold Follows
  split
  · rename_i e rest heq
    exact absurd heq (hpc e rest)
  · exact hcursor

theorem Page.of_emit {page : List ClientEvent} {new : ClientEvent} (h : Page me s page)
    (hnew : ∀ f ∈ page, f.id < new.id) (hshown : s'.shown = s.shown)
    (happended : s'.appended = s.appended ++ [new]) (hmissed : s'.missed = s.missed) :
    Page me s' page := by
  have hposition : s'.position = s.position := congrArg (last ClientEvent.id) hshown
  refine
    { ascending := h.ascending
      ahead := by rw [hposition]; exact h.ahead
      mine := fun f hf => ?_
      kept := by rw [hmissed]; exact h.kept
      covers := fun f hf a ha hclient hle => ?_ }
  · rw [happended]
    exact ⟨List.mem_append_left _ (h.mine f hf).1, (h.mine f hf).2⟩
  · rw [happended] at ha
    rw [hshown, hmissed]
    rcases List.mem_append.mp ha with ha | ha
    · exact h.covers f hf a ha hclient hle
    · rw [List.mem_singleton.mp ha] at hle
      exact absurd (hnew f hf) (Nat.not_lt.mpr hle)

theorem Account.emit (h : Account me s) {r : Retention} {e : ClientEventLog.NewEvent}
    (hknown : s.log.known e = false) : Account me (s.emit r e) := by
  rcases emit_cases s r e with ⟨hk, -⟩ | ⟨-, heq⟩
  · rw [hknown] at hk
    cases hk
  rw [heq]
  have hnew : (s.log.newRow e).id = s.log.seq + 1 := rfl
  have hsub := ClientEventLog.append_rows_sublist s.log r e
  have hold : ∀ a ∈ s.appended, a ∈ s.appended ++ [s.log.newRow e] :=
    fun a ha => List.mem_append_left _ ha
  refine
    { rows := hsub.trans (h.rows.append_right _)
      appended := h.appended.append_singleton fun a ha => Nat.lt_succ_of_le (h.bounded a ha)
      positive := fun a ha => ?_
      bounded := fun a ha => ?_
      shown := h.shown
      mine := fun a ha => ⟨hold a (h.mine a ha).1, (h.mine a ha).2⟩
      covers := fun a ha hclient hle => ?_
      gone := fun a ha => ?_ }
  · rcases List.mem_append.mp ha with ha | ha
    · exact h.positive a ha
    · rw [List.mem_singleton.mp ha, hnew]
      omega
  · show a.id ≤ (s.log.append r e).2.seq
    rw [(ClientEventLog.append_new hknown).1]
    rcases List.mem_append.mp ha with ha | ha
    · exact Nat.le_succ_of_le (h.bounded a ha)
    · rw [List.mem_singleton.mp ha, hnew]
  · rcases List.mem_append.mp ha with ha | ha
    · exact h.covers a ha hclient hle
    · have hpassed : a.id ≤ s.log.seq := Nat.le_trans hle h.position_le
      rw [List.mem_singleton.mp ha] at hpassed
      omega
  · obtain ⟨hin, hout, hshown⟩ := h.gone a ha
    refine ⟨hold a hin, fun hrow => ?_, hshown⟩
    rcases List.mem_append.mp (hsub.subset hrow) with hrow | hrow
    · exact hout hrow
    · have hle := h.bounded a hin
      rw [List.mem_singleton.mp hrow] at hle
      omega

theorem Inv.emit (h : Inv me s) (r : Retention) (e : ClientEventLog.NewEvent) :
    Inv me (s.emit r e) := by
  rcases emit_cases s r e with ⟨-, heq⟩ | ⟨hknown, heq⟩
  · rw [heq]
    exact h
  refine { h.toAccount.emit hknown with unplugged := ?_, follows := fun stream hstream => ?_ }
  · rw [heq]
    exact h.unplugged
  · rw [heq] at hstream ⊢
    have hfollows := h.follows stream hstream
    unfold Follows at hfollows ⊢
    split at hfollows
    · obtain ⟨hid, hpage⟩ := hfollows
      refine ⟨hid, hpage.of_emit (fun f hf => ?_) rfl rfl rfl⟩
      exact Nat.lt_succ_of_le (h.bounded f (hpage.mine f hf).1)
    · exact hfollows

theorem Page.tail {e : ClientEvent} {rest : List ClientEvent} (h : Page me s (e :: rest))
    (hshown : s'.shown = s.shown ++ [e]) (happended : s'.appended = s.appended)
    (hmissed : s'.missed = s.missed) : Page me s' rest := by
  obtain ⟨hahead, hrest⟩ := List.pairwise_cons.mp h.ascending
  refine
    { ascending := hrest
      ahead := fun f hf => ?_
      mine := fun f hf => ?_
      kept := fun f hf => ?_
      covers := fun f hf a ha hclient hle => ?_ }
  · unfold position
    rw [hshown, last_append_singleton]
    exact hahead f hf
  · rw [happended]
    exact h.mine f (List.mem_cons_of_mem e hf)
  · rw [hmissed]
    exact h.kept f (List.mem_cons_of_mem e hf)
  · rw [happended] at ha
    rw [hshown, hmissed, List.mem_append]
    rcases h.covers f (List.mem_cons_of_mem e hf) a ha hclient hle with hin | hin | hin
    · exact .inl (.inl hin)
    · rcases List.mem_cons.mp hin with rfl | hin
      · exact .inl (.inr (List.mem_singleton_self a))
      · exact .inr (.inl hin)
    · exact .inr (.inr hin)

/-- Showing the first frame of a page moves the position to it. -/
theorem Account.advance {e : ClientEvent} {rest : List ClientEvent} (h : Account me s)
    (hpage : Page me s (e :: rest)) (hlog : s'.log = s.log) (hshown : s'.shown = s.shown ++ [e])
    (happended : s'.appended = s.appended) (hmissed : s'.missed = s.missed) : Account me s' := by
  have hposition : s'.position = e.id := by
    unfold position
    rw [hshown, last_append_singleton]
  have hfirst : e ∈ e :: rest := List.mem_cons_self ..
  refine
    { rows := by rw [hlog, happended]; exact h.rows
      appended := by rw [happended]; exact h.appended
      positive := by rw [happended]; exact h.positive
      bounded := by rw [happended, hlog]; exact h.bounded
      shown := ?_
      mine := fun a ha => ?_
      covers := fun a ha hclient hle => ?_
      gone := fun a ha => ?_ }
  · rw [hshown]
    exact h.shown.append_of_last_lt (hpage.ahead e hfirst)
  · rw [hshown] at ha
    rw [happended]
    rcases List.mem_append.mp ha with ha | ha
    · exact h.mine a ha
    · rw [List.mem_singleton.mp ha]
      exact hpage.mine e hfirst
  · rw [happended] at ha
    rw [hposition] at hle
    rw [hshown, hmissed, List.mem_append]
    rcases hpage.covers e hfirst a ha hclient hle with hin | hin | hin
    · exact .inl (.inl hin)
    · rcases List.mem_cons.mp hin with rfl | hin
      · exact .inl (.inr (List.mem_singleton_self a))
      · -- the rest of the page lies behind the frame
        exact absurd ((List.pairwise_cons.mp hpage.ascending).1 a hin) (Nat.not_lt.mpr hle)
    · exact .inr hin
  · rw [hmissed] at ha
    obtain ⟨hin, hout, hnot⟩ := h.gone a ha
    rw [happended, hlog, hshown]
    refine ⟨hin, hout, fun hmem => ?_⟩
    rcases List.mem_append.mp hmem with hmem | hmem
    · exact hnot hmem
    · rw [List.mem_singleton.mp hmem] at ha
      exact hpage.kept e hfirst ha

theorem Account.send {stream : EventStream} {page : List ClientEvent} (h : Account me s)
    (hpage : Page me s page) (hcursor : stream.cursor = s.position) :
    Inv me (s.send stream page) := by
  cases page with
  | nil => exact h.plug (by simp) hcursor
  | cons e rest =>
    have hshown : (s.send stream (e :: rest)).shown = s.shown ++ [e] :=
      (List.append_assoc s.received s.wire [e]).symm
    have haccount : Account me (s.send stream (e :: rest)) := h.advance hpage rfl hshown rfl rfl
    refine
      { haccount with
        unplugged := fun hnone => by cases hnone
        follows := fun stream' hstream => ?_ }
    cases hstream
    refine ⟨?_, hpage.tail hshown rfl rfl⟩
    unfold position
    rw [hshown, last_append_singleton]

theorem mem_pruned {cursor : Nat} {e : ClientEvent} : e ∈ s.pruned me cursor ↔
    e ∈ s.appended ∧ e.clientId = me ∧ cursor < e.id ∧ e ∉ s.log.rows := by
  simp [pruned, List.mem_filter, and_assoc]

theorem mem_since {log : ClientEventLog} {cursor : Nat} {e : ClientEvent} :
    e ∈ log.since me cursor ↔ e ∈ log.rows ∧ e.clientId = me ∧ cursor < e.id := by
  simp [ClientEventLog.since, List.mem_filter]

/-- What lies ahead and is not in the log any more is missed. -/
theorem Account.miss (h : Account me s) (notifier : ClientEventNotifier) :
    Account me { s with notifier := notifier, missed := s.missed ++ s.pruned me s.position } where
  rows := h.rows
  appended := h.appended
  positive := h.positive
  bounded := h.bounded
  shown := h.shown
  mine := h.mine
  covers a ha hclient hle :=
    (h.covers a ha hclient hle).imp_right fun hin => List.mem_append_left _ hin
  gone e he := by
    rcases List.mem_append.mp he with he | he
    · exact h.gone e he
    · obtain ⟨hin, -, hahead, hout⟩ := mem_pruned.mp he
      refine ⟨hin, hout, fun hshown => ?_⟩
      exact absurd hahead (Nat.not_lt.mpr (h.shown.key_le_last hshown))

/-- A read finds the client's next events, and the rest of them missed. -/
theorem Account.page (h : Account me s) (notifier : ClientEventNotifier) (limit : Nat) :
    Page me { s with notifier := notifier, missed := s.missed ++ s.pruned me s.position }
      (s.log.listSince me s.position limit) := by
  have hsince : Ascending ClientEvent.id (s.log.since me s.position) :=
    s.log.ascending.sublist List.filter_sublist
  have hfound : ∀ f ∈ s.log.listSince me s.position limit,
      f ∈ s.log.rows ∧ f.clientId = me ∧ s.position < f.id :=
    fun f hf => mem_since.mp (List.mem_of_mem_take hf)
  exact
    { ascending := hsince.sublist (List.take_sublist ..)
      ahead := fun f hf => (hfound f hf).2.2
      mine := fun f hf => ⟨h.rows.subset (hfound f hf).1, (hfound f hf).2.1⟩
      kept := fun f hf hmissed => by
        rcases List.mem_append.mp hmissed with hmissed | hmissed
        · exact (h.gone f hmissed).2.1 (hfound f hf).1
        · exact (mem_pruned.mp hmissed).2.2.2 (hfound f hf).1
      covers := fun f hf a ha hclient hle => by
        by_cases hpassed : a.id ≤ s.position
        · rcases h.covers a ha hclient hpassed with hin | hin
          · exact .inl hin
          · exact .inr (.inr (List.mem_append_left _ hin))
        · rw [Nat.not_le] at hpassed
          by_cases hrow : a ∈ s.log.rows
          · exact .inr (.inl (hsince.mem_take (mem_since.mpr ⟨hrow, hclient, hpassed⟩) hf hle))
          · refine .inr (.inr (List.mem_append_right _ ?_))
            exact mem_pruned.mpr ⟨ha, hclient, hpassed, hrow⟩ }

theorem Account.read (h : Account me s) {cursor : Nat} (hcursor : cursor = s.position) :
    Inv me (s.read me cursor) := by
  subst hcursor
  exact (h.miss (s.notifier.event me).2).send (h.page (s.notifier.event me).2 pageSize) rfl

/-- What is under way lies behind the last frame received. -/
theorem Account.wire_ahead (h : Account me s) {b : ClientEvent} (hb : b ∈ s.wire) :
    last ClientEvent.id s.received < b.id := by
  unfold last
  cases hlast : s.received.getLast? with
  | none => exact h.positive b (h.mine b (List.mem_append_right _ hb)).1
  | some c => exact (List.pairwise_append.mp h.shown).2.2 c (List.mem_of_getLast? hlast) b hb

theorem Account.received_le (h : Account me s) : last ClientEvent.id s.received ≤ s.position := by
  cases hwire : s.wire with
  | nil =>
    unfold position FeedState.shown
    rw [hwire, List.append_nil]
  | cons b bs =>
    have hb : b ∈ s.wire := by simp [hwire]
    exact Nat.le_trans (Nat.le_of_lt (h.wire_ahead hb))
      (h.shown.key_le_last (List.mem_append_right _ hb))

theorem Inv.disconnect (h : Inv me s) : Inv me { s with stream := none, wire := [] } := by
  have hsub : s.received.Sublist s.shown := List.sublist_append_left ..
  have hshown : FeedState.shown { s with stream := none, wire := [] } = s.received :=
    List.append_nil s.received
  refine
    { rows := h.rows
      appended := h.appended
      positive := h.positive
      bounded := h.bounded
      shown := ?_
      mine := fun a ha => ?_
      covers := fun a ha hclient hle => ?_
      gone := fun a ha => ?_
      unplugged := fun _ => rfl
      follows := fun stream hstream => by cases hstream }
  · rw [hshown]
    exact h.shown.sublist hsub
  · rw [hshown] at ha
    exact h.mine a (hsub.subset ha)
  · unfold position at hle
    rw [hshown] at hle ⊢
    rcases h.covers a ha hclient (Nat.le_trans hle h.received_le) with hin | hin
    · rcases List.mem_append.mp hin with hin | hin
      · exact .inl hin
      · exact absurd (h.wire_ahead hin) (Nat.not_lt.mpr hle)
    · exact .inr hin
  · obtain ⟨hin, hout, hnot⟩ := h.gone a ha
    rw [hshown]
    exact ⟨hin, hout, fun hrec => hnot (hsub.subset hrec)⟩

theorem Inv.connect (h : Inv me s) (hstream : s.stream = none) {cursor : Nat}
    (hcursor : cursor = last ClientEvent.id s.received) :
    Inv me { s with stream := some { cursor := cursor } } := by
  refine h.toAccount.plug (by simp) ?_
  show cursor = last ClientEvent.id (s.received ++ s.wire)
  rw [h.unplugged hstream, List.append_nil]
  exact hcursor

theorem Inv.receive (h : Inv me s) {e : ClientEvent} {wire : List ClientEvent}
    (hwire : s.wire = e :: wire) :
    Inv me { s with wire := wire, received := s.received ++ [e] } := by
  have hshown : FeedState.shown { s with
      wire := wire, received := s.received ++ [e] } = s.shown := by
    unfold FeedState.shown
    rw [hwire, List.append_assoc]
    rfl
  have haccount : Account me { s with wire := wire, received := s.received ++ [e] } :=
    h.toAccount.congr rfl hshown rfl rfl
  refine
    { haccount with
      unplugged := fun hnone => ?_
      follows := fun stream hst => (h.follows stream hst).congr hshown rfl rfl }
  rw [h.unplugged hnone] at hwire
  cases hwire

theorem step_inv (h : Inv me s) (hstep : s.step r me l = some s') : Inv me s' := by
  cases moves_of_step hstep with
  | emit e => exact h.emit r e
  | subscribe clientId =>
    have haccount : Account me { s with notifier := (s.notifier.event clientId).2 } :=
      h.toAccount.congr rfl rfl rfl rfl
    exact
      { haccount with
        unplugged := h.unplugged
        follows := fun stream hst => (h.follows stream hst).congr rfl rfl rfl }
  | connect asHeader hstream => exact h.connect hstream rfl
  | read hstream htop => exact h.toAccount.read ((h.follows _ hstream).cursor htop.not_sending)
  | next hstream hpc =>
    have hfollows := h.follows _ hstream
    unfold Follows at hfollows
    rw [hpc] at hfollows
    exact h.toAccount.send hfollows.2 hfollows.1
  | park hstream hpc =>
    exact h.toAccount.plug (by simp) ((h.follows _ hstream).cursor (by simp [hpc]))
  | beat hstream hpc =>
    exact h.toAccount.plug (by simp) ((h.follows _ hstream).cursor (by simp [hpc]))
  | receive hwire => exact h.receive hwire
  | disconnect => exact h.disconnect

theorem run_inv {ls : List FeedLabel} (hrun : Run (step r me) {} ls t) : Inv me t :=
  hrun.invariant (fun _ _ _ h hst => step_inv h hst) (init_inv me)

/-! ## What the client receives -/

theorem count_received {e : ClientEvent} (h : Ascending ClientEvent.id s.received)
    (he : e ∈ s.received) : s.received.count e = 1 := by
  refine List.count_eq_one_of_mem (List.Pairwise.imp ?_ h) he
  rintro a b hlt rfl
  exact absurd hlt (Nat.lt_irrefl _)

/-- After any run of emissions of any clients and of connections that resume where the client left
off: the frames it has received have strictly increasing ids and are events of this client, and of
its events up to the last of them it has each exactly once, but for those that were pruned before
the stream read past them. -/
theorem frames_exact {r : Retention} {me : String} {ls : List FeedLabel} {t : FeedState}
    (hrun : Run (step r me) {} ls t) :
    Ascending ClientEvent.id t.received ∧
      (∀ e ∈ t.received, e ∈ t.appended ∧ e.clientId = me) ∧
      (∀ e ∈ t.appended, e.clientId = me → e.id ≤ last ClientEvent.id t.received →
        (t.received.count e = 1 ↔ e ∉ t.missed)) ∧
      ∀ e ∈ t.missed, e ∈ t.appended ∧ e ∉ t.log.rows := by
  have hinv := run_inv hrun
  have hsub : t.received.Sublist t.shown := List.sublist_append_left ..
  have hasc : Ascending ClientEvent.id t.received := hinv.shown.sublist hsub
  refine ⟨hasc, fun e he => hinv.mine e (hsub.subset he), fun e he hclient hle => ⟨?_, ?_⟩, ?_⟩
  · intro hcount hmissed
    have hmem : e ∈ t.received := List.count_pos_iff.mp (by omega)
    exact (hinv.gone e hmissed).2.2 (hsub.subset hmem)
  · intro hmissed
    -- a break of the connection here would lose nothing that has been received
    have hcut := hinv.disconnect.covers e he hclient
    unfold position FeedState.shown at hcut
    rw [List.append_nil] at hcut
    exact count_received hasc ((hcut hle).resolve_right hmissed)
  · intro e he
    exact ⟨(hinv.gone e he).1, (hinv.gone e he).2.1⟩

def newEvent (clientId eventId : String) : ClientEventLog.NewEvent where
  clientId := clientId
  eventId := eventId
  type := "subscription.updated"
  payload := "\x7b\x7d"
  now := 0

/-- The client misses its first event, which a limit of one prunes while it is away, and loses a
frame to a broken connection. -/
def brokenOff : List FeedLabel :=
  [.emit (newEvent "c1" "a"), .emit (newEvent "c2" "a"), .emit (newEvent "c1" "b"), .connect true,
    .resume, .disconnect, .connect false, .resume, .receive]

theorem frames_exact_broken :
    ∃ t, Run (step { maxPerClient := 1 } "c1") {} brokenOff t ∧
      (t.received.map (·.id), t.missed.map (·.id)) = ([3], [1, 1]) ∧
      Ascending ClientEvent.id t.received := by
  have hexec : (exec (step { maxPerClient := 1 } "c1") {} brokenOff).map
      (fun t => (t.received.map (·.id), t.missed.map (·.id))) = some ([3], [1, 1]) := by
    decide +kernel
  obtain ⟨t, hrun, ht⟩ := run_of_exec_map hexec
  exact ⟨t, hrun, ht, (frames_exact hrun).1⟩

end FeedState

end InferenceEngine
