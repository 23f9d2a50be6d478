import InferenceEngine.Billing.ClientStream

/-!
# Billing.ClientWakeup

A parked stream and its wakeup. The stream captures the wakeup before it reads the log, and an
emission sets the one that is current, so no event can arrive unnoticed; but a read stops after one
page, and what is left of a longer backlog has no wakeup that announces it.

* `Armed`: an event that the stream has not accounted for has set its wakeup.
* `served_of_fits`: as long as every read finds at most a page, nothing waits for a parked stream;
  from a read that finds more, the stream can go on and park in front of the rest.
-/

namespace InferenceEngine

open Feed Lts

namespace FeedState

variable {r : Retention} {me : String} {s s' t : FeedState} {l : FeedLabel}

/-- Nothing waits for a stream that is parked on a wakeup that is not set. -/
def Served (me : String) (s : FeedState) : Prop :=
  ∀ stream, s.stream = some stream → stream.pc = .waiting → s.notifier.isSet stream.waiter = false →
    ∀ e ∈ s.log.rows, e.clientId = me → e.id ≤ stream.cursor

/-- If the step is a read, it finds at most a page. -/
def Fits (me : String) (s : FeedState) (l : FeedLabel) : Prop :=
  l = .resume → ∀ stream, s.stream = some stream → stream.AtTop →
    (s.log.since me stream.cursor).length ≤ pageSize

/-- The wakeup is set, or is the current one and what is in the log is accounted for. -/
def Armed (me : String) (s : FeedState) (waiter : Nat) (known : ClientEvent → Prop) : Prop :=
  s.notifier.isSet waiter = true ∨
    s.notifier.current me = some waiter ∧ ∀ e ∈ s.log.rows, e.clientId = me → known e

/-- What a stream that has read knows of the log. -/
def Watches (me : String) (s : FeedState) (stream : EventStream) : Prop :=
  match stream.pc with
  | .connected | .keepAlive => True
  | .sending e rest => Armed me s stream.waiter fun a => a ∈ rest ∨ a.id ≤ e.id
  | .checking | .waiting => Armed me s stream.waiter fun a => a.id ≤ stream.cursor

structure Awake (me : String) (s : FeedState) : Prop extends Inv me s where
  watches : ∀ stream, s.stream = some stream → Watches me s stream

theorem Armed.mono {waiter : Nat} {known known' : ClientEvent → Prop} (h : Armed me s waiter known)
    (himp : ∀ e, known e → known' e) : Armed me s waiter known' :=
  h.imp_right fun ⟨hcur, hall⟩ => ⟨hcur, fun e he hclient => himp e (hall e he hclient)⟩

theorem Armed.congr {waiter : Nat} {known : ClientEvent → Prop} (h : Armed me s waiter known)
    (hrows : s'.log.rows = s.log.rows) (hset : s'.notifier.isSet = s.notifier.isSet)
    (hcur : s.notifier.current me = some waiter → s'.notifier.current me = some waiter) :
    Armed me s' waiter known := by
  unfold Armed at h ⊢
  rw [hrows, hset]
  exact h.imp_right fun ⟨hc, hall⟩ => ⟨hcur hc, hall⟩

theorem Armed.emit {waiter : Nat} {known : ClientEvent → Prop} (h : Armed me s waiter known)
    (r : Retention) (e : ClientEventLog.NewEvent) : Armed me (s.emit r e) waiter known := by
  rcases emit_cases s r e with ⟨-, heq⟩ | ⟨-, heq⟩
  · rw [heq]
    exact h
  have hrows := ClientEventLog.append_rows_sublist s.log r e
  rw [heq]
  rcases h with hset | ⟨hcur, hall⟩
  · left
    show (s.notifier.isSet waiter || _) = true
    rw [hset, Bool.true_or]
  · by_cases hme : me = e.clientId
    · -- the wakeup of the stream is the one that the emission sets
      left
      show (s.notifier.isSet waiter || s.notifier.current e.clientId == some waiter) = true
      rw [← hme, hcur]
      simp
    · right
      constructor
      · show (if me = e.clientId then _ else s.notifier.current me) = some waiter
        rw [if_neg hme]
        exact hcur
      · intro a ha hclient
        rcases List.mem_append.mp (hrows.subset ha) with ha | ha
        · exact hall a ha hclient
        · rw [List.mem_singleton.mp ha] at hclient
          exact absurd hclient.symm hme

theorem Watches.of_armed {stream : EventStream} (h : Watches me s stream)
    (himp : ∀ waiter known, Armed me s waiter known → Armed me s' waiter known) :
    Watches me s' stream := by
  unfold Watches at h ⊢
  split
  · trivial
  · trivial
  · rename_i e rest hpc
    rw [hpc] at h
    exact himp _ _ h
  · rename_i hpc
    rw [hpc] at h
    exact himp _ _ h
  · rename_i hpc
    rw [hpc] at h
    exact himp _ _ h

/-- A page whose rest and whose first frame account for the log. -/
theorem watches_send {stream : EventStream} {page : List ClientEvent}
    (h : Armed me s stream.waiter fun a => a ∈ page ∨ a.id ≤ stream.cursor)
    (hahead : ∀ f ∈ page, stream.cursor < f.id) :
    ∀ stream', (s.send stream page).stream = some stream' →
      Watches me (s.send stream page) stream' := by
  intro stream' hstream
  cases page with
  | nil =>
    cases hstream
    refine Armed.congr (s := s) (h.mono fun a ha => ?_) rfl rfl id
    exact ha.resolve_left (by simp)
  | cons e rest =>
    cases hstream
    refine Armed.congr (s := s) (h.mono fun a ha => ?_) rfl rfl id
    rcases ha with ha | ha
    · rcases List.mem_cons.mp ha with rfl | ha
      · exact .inr (Nat.le_refl _)
      · exact .inl ha
    · exact .inr (Nat.le_of_lt (Nat.lt_of_le_of_lt ha (hahead e (List.mem_cons_self ..))))

theorem watches_read {cursor : Nat} (hfits : (s.log.since me cursor).length ≤ pageSize) :
    ∀ stream', (s.read me cursor).stream = some stream' →
      Watches me (s.read me cursor) stream' := by
  unfold FeedState.read
  dsimp only
  have hpage : s.log.listSince me cursor pageSize = s.log.since me cursor :=
    List.take_of_length_le hfits
  rw [hpage]
  refine watches_send (.inr ⟨ClientEventNotifier.current_event s.notifier me,
    fun a ha hclient => ?_⟩) ?_
  · by_cases hpassed : a.id ≤ cursor
    · exact .inr hpassed
    · exact .inl (mem_since.mpr ⟨ha, hclient, Nat.not_le.mp hpassed⟩)
  · intro f hf
    exact (mem_since.mp hf).2.2

theorem emit_stream (s : FeedState) (r : Retention) (e : ClientEventLog.NewEvent) :
    (s.emit r e).stream = s.stream := by
  rcases emit_cases s r e with ⟨-, heq⟩ | ⟨-, heq⟩
  · rw [heq]
  · rw [heq]

theorem step_awake (h : Awake me s) (hfits : Fits me s l) (hstep : s.step r me l = some s') :
    Awake me s' := by
  refine { step_inv h.toInv hstep with watches := fun stream' hstream' => ?_ }
  cases moves_of_step hstep with
  | emit e =>
    rw [emit_stream] at hstream'
    exact (h.watches stream' hstream').of_armed fun _ _ harmed => harmed.emit r e
  | subscribe clientId =>
    refine (h.watches stream' hstream').of_armed fun waiter known harmed => ?_
    exact harmed.congr rfl (ClientEventNotifier.isSet_event s.notifier clientId) fun hcur =>
      ClientEventNotifier.current_event_of_some hcur clientId
  | connect asHeader hstream =>
    cases hstream'
    trivial
  | read hstream htop => exact watches_read (hfits rfl _ hstream htop) stream' hstream'
  | next hstream hpc =>
    have hwatches := h.watches _ hstream
    have hfollows := h.follows _ hstream
    unfold Watches at hwatches
    unfold Follows at hfollows
    rw [hpc] at hwatches hfollows
    refine watches_send hwatches (fun f hf => ?_) stream' hstream'
    have hahead := hfollows.2.ahead f hf
    rw [← hfollows.1] at hahead
    exact hahead
  | park hstream hpc =>
    have hwatches := h.watches _ hstream
    unfold Watches at hwatches
    rw [hpc] at hwatches
    cases hstream'
    exact Armed.congr (s := s) hwatches rfl rfl id
  | beat hstream hpc =>
    cases hstream'
    trivial
  | receive hwire =>
    exact (h.watches stream' hstream').of_armed fun _ _ harmed => harmed.congr rfl rfl id
  | disconnect => cases hstream'

theorem Awake.served (h : Awake me s) : Served me s := by
  intro stream hstream hpc hunset e he hclient
  have hwatches := h.watches stream hstream
  unfold Watches at hwatches
  rw [hpc] at hwatches
  rcases hwatches with hset | ⟨-, hall⟩
  · rw [hunset] at hset
    cases hset
  · exact hall e he hclient

/-! ## A backlog longer than a page -/

theorem step_fresh (h : s.notifier.Fresh) (hstep : s.step r me l = some s') :
    s'.notifier.Fresh := by
  rcases step_writes hstep with ⟨e, -, rfl⟩ | ⟨-, -, -, heq | ⟨clientId, heq⟩⟩
  · rcases emit_cases s r e with ⟨-, heq⟩ | ⟨-, heq⟩
    · rw [heq]
      exact h
    · rw [heq]
      exact h.notify e.clientId
  · rw [heq]
    exact h
  · rw [heq]
    exact h.event clientId

theorem init_fresh : ClientEventNotifier.Fresh {} where
  made w hw := by cases hw
  current c w hw := by cases hw
  apart c d w hc := by cases hc

/-- Nothing but the stream happens until it has sent its page and parks. -/
theorem park_run (r : Retention) (me : String) (page : List ClientEvent) :
    ∀ (s : FeedState) (stream : EventStream), ∃ t cursor,
      Run (step r me) (s.send stream page) (List.replicate (page.length + 1) .resume) t ∧
      t.log = s.log ∧ t.notifier = s.notifier ∧
      t.stream = some { cursor := cursor, waiter := stream.waiter, pc := .waiting } ∧
      (cursor = stream.cursor ∨ ∃ f ∈ page, cursor = f.id) := by
  induction page with
  | nil =>
    intro s stream
    exact ⟨_, stream.cursor, .single rfl, rfl, rfl, rfl, .inl rfl⟩
  | cons e rest ih =>
    intro s stream
    obtain ⟨t, cursor, hrun, hlog, hnotifier, hstream, hcursor⟩ :=
      ih { s with stream := some { stream with pc := .sending e rest }, wire := s.wire ++ [e] }
        { stream with pc := .sending e rest, cursor := e.id }
    refine ⟨t, cursor, .cons rfl hrun, hlog, hnotifier, hstream, .inr ?_⟩
    rcases hcursor with rfl | ⟨f, hf, rfl⟩
    · exact ⟨e, List.mem_cons_self .., rfl⟩
    · exact ⟨f, List.mem_cons_of_mem e hf, rfl⟩

/-- After a read that finds more than a page, the stream parks in front of the rest. -/
theorem stalls {cursor : Nat} (hfresh : s.notifier.Fresh)
    (hlong : pageSize < (s.log.since me cursor).length) :
    ∃ t, Run (step r me) (s.read me cursor) (List.replicate (pageSize + 1) .resume) t ∧
      ¬ Served me t := by
  obtain ⟨t, c, hrun, hlog, hnotifier, hstream, hc⟩ :=
    park_run r me (s.log.listSince me cursor pageSize)
      { s with notifier := (s.notifier.event me).2, missed := s.missed ++ s.pruned me cursor }
      { cursor := cursor, waiter := (s.notifier.event me).1 }
  have hlen : (s.log.listSince me cursor pageSize).length = pageSize := by
    unfold ClientEventLog.listSince
    rw [List.length_take, Nat.min_eq_left (Nat.le_of_lt hlong)]
  rw [hlen] at hrun
  refine ⟨t, hrun, fun hserved => ?_⟩
  -- a row behind the page
  have hdrop : 0 < ((s.log.since me cursor).drop pageSize).length := by
    rw [List.length_drop]
    omega
  obtain ⟨a, ha⟩ := List.exists_mem_of_length_pos hdrop
  obtain ⟨hrow, hclient, hahead⟩ := mem_since.mp (List.mem_of_mem_drop ha)
  have hunset : t.notifier.isSet (s.notifier.event me).1 = false := by
    rw [hnotifier]
    exact ((hfresh.event me).current me _ (ClientEventNotifier.current_event s.notifier me)).2
  have hle : a.id ≤ c := by
    refine hserved _ hstream rfl hunset a ?_ hclient
    rw [hlog]
    exact hrow
  rcases hc with rfl | ⟨f, hf, rfl⟩
  · exact absurd hahead (Nat.not_lt.mpr hle)
  · have hsince : Ascending ClientEvent.id (s.log.since me cursor) :=
      s.log.ascending.sublist List.filter_sublist
    unfold Ascending at hsince
    rw [← List.take_append_drop pageSize (s.log.since me cursor)] at hsince
    exact absurd ((List.pairwise_append.mp hsince).2.2 f hf a ha) (Nat.not_lt.mpr hle)

/-- In a run whose reads find at most a page, nothing ever waits for a parked stream with an unset
wakeup. And wherever a run comes to a read that finds more, it can go on to where an event does. -/
theorem served_of_fits {r : Retention} {me : String} {ls : List FeedLabel} {t : FeedState}
    (hrun : Run (step r me) {} ls t) :
    (Guarded (step r me) (Fits me) {} ls → Always (step r me) (Served me) {} ls) ∧
    ∀ u, t.step r me .resume = some u → ¬ Fits me t .resume →
      ∃ v, Run (step r me) u (List.replicate (pageSize + 1) .resume) v ∧ ¬ Served me v := by
  constructor
  · intro hguarded
    have hstart : Awake me {} :=
        { init_inv me with watches := fun stream hstream => by cases hstream }
    refine Guarded.always (I := Awake me) ?_ (fun s hs => hs.served) hstart hguarded
    intro s l s' hs hok hst
    exact step_awake hs hok hst
  · intro u hstep hlong
    unfold Fits at hlong
    push Not at hlong
    obtain ⟨-, stream, hstream, htop, hlong⟩ := hlong
    have hfresh : t.notifier.Fresh :=
      hrun.invariant (P := fun s => s.notifier.Fresh)
        (fun _ _ _ hs hst => step_fresh hs hst) init_fresh
    cases moves_of_step hstep with
    | read hstream' htop' =>
      rw [hstream] at hstream'
      cases hstream'
      exact stalls hfresh hlong
    | next hstream' hpc =>
      rw [hstream] at hstream'
      cases hstream'
      exact absurd hpc (htop.not_sending _ _)
    | park hstream' hpc =>
      rw [hstream] at hstream'
      cases hstream'
      exact absurd hpc htop.not_checking

/-- A stream that is idle while events come and go. -/
theorem served_of_fits_push :
    ∃ t, Run (step {} "c1") {} [.connect true, .resume, .resume, .emit (newEvent "c1" "a")] t ∧
      Always (step {} "c1") (Served "c1") {}
        [.connect true, .resume, .resume, .emit (newEvent "c1" "a")] := by
  refine ⟨_, .cons rfl (.cons rfl (.cons rfl (.cons rfl .refl))), ?_⟩
  refine (served_of_fits (.cons rfl (.cons rfl (.cons rfl (.cons rfl .refl))))).1 ?_
  refine ⟨fun h => (by cases h), fun s hs => ⟨fun _ stream hstream _ => ?_, fun s' hs' => ⟨?_, ?_⟩⟩⟩
  · cases hs
    cases hstream
    decide
  · cases hs
    cases hs'
    rintro - stream hstream (hpc | hpc | hpc)
    · cases hstream
      cases hpc
    · cases hstream
      cases hpc
    · cases hstream
      cases hpc
  · intro s'' _
    exact ⟨fun h => (by cases h), fun _ _ => trivial⟩

def backlog (n : Nat) : List FeedLabel :=
  (List.range n).map fun i => .emit (newEvent "c1" (String.ofList (List.replicate i 'x')))

theorem backlog_run (n : Nat) :
    ∃ t, Run (step {} "c1") {} (backlog n) t ∧ t.stream = none ∧ t.received = [] ∧
      t.log.rows.length = n ∧ (∀ e ∈ t.log.rows, e.clientId = "c1" ∧ 0 < e.id ∧
        e.eventId.toList.length < n) := by
  induction n with
  | zero => exact ⟨{}, .refl, rfl, rfl, rfl, by simp [ClientEventLog.empty]⟩
  | succ n ih =>
    obtain ⟨t, hrun, hstream, hreceived, hlen, hrows⟩ := ih
    let e := newEvent "c1" (String.ofList (List.replicate n 'x'))
    have hname : e.eventId.toList.length = n := by simp [e, newEvent]
    have hnew : t.log.known e = false := by
      refine List.any_eq_false.mpr fun row hrow => ?_
      have hlt := (hrows row hrow).2.2
      rw [Bool.and_eq_true, decide_eq_true_eq, decide_eq_true_eq]
      rintro ⟨-, hid⟩
      rw [hid] at hlt
      omega
    have hkept : (t.emit {} e).log.rows = t.log.rows ++ [t.log.newRow e] ∧
        (t.emit {} e).stream = none ∧ (t.emit {} e).received = [] := by
      rcases emit_cases t {} e with ⟨hknown, -⟩ | ⟨-, heq⟩
      · rw [hnew] at hknown
        cases hknown
      · rw [heq]
        exact ⟨(ClientEventLog.append_new hnew).2, hstream, hreceived⟩
    refine ⟨t.emit {} e, ?_, hkept.2.1, hkept.2.2, ?_, fun row hrow => ?_⟩
    · unfold backlog
      rw [List.range_succ, List.map_append]
      exact hrun.trans (.single rfl)
    · rw [hkept.1, List.length_append, hlen]
      rfl
    · rw [hkept.1] at hrow
      rcases List.mem_append.mp hrow with hrow | hrow
      · obtain ⟨hclient, hpos, hlt⟩ := hrows row hrow
        exact ⟨hclient, hpos, by omega⟩
      · rw [List.mem_singleton.mp hrow]
        refine ⟨rfl, Nat.succ_pos _, ?_⟩
        show e.eventId.toList.length < n + 1
        omega

/-- A client that connects to 201 events is sent 200 and waits for the last. -/
theorem stalled_with_backlog :
    ∃ t, Run (step {} "c1") {}
        (backlog 201 ++ .connect true :: List.replicate 202 .resume) t ∧ ¬ Served "c1" t := by
  obtain ⟨s, hrun, hstream, hreceived, hlen, hrows⟩ := backlog_run 201
  have hall : s.log.since "c1" 0 = s.log.rows := by
    refine List.filter_eq_self.mpr fun e he => ?_
    obtain ⟨hclient, hpos, -⟩ := hrows e he
    simp [hclient, hpos]
  have hfresh : s.notifier.Fresh :=
    hrun.invariant (P := fun s => s.notifier.Fresh)
      (fun _ _ _ hs hst => step_fresh hs hst) init_fresh
  obtain ⟨t, hpark, hstalled⟩ : ∃ t,
      Run (step {} "c1") (read { s with stream := some { cursor := 0 } } "c1" 0)
      (List.replicate (pageSize + 1) .resume) t ∧ ¬ Served "c1" t := by
    refine stalls hfresh ?_
    show pageSize < (s.log.since "c1" 0).length
    rw [hall, hlen]
    decide
  have hconnect : s.step {} "c1" (.connect true) =
      some { s with stream := some { cursor := 0 } } := by
    simp only [step, hstream, lastEventId, hreceived]
    rfl
  exact ⟨t, hrun.trans (.cons hconnect (.cons rfl hpark)), hstalled⟩

end FeedState

end InferenceEngine
