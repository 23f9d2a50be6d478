import InferenceEngine.Billing.ClientStream

/-!
# Billing.ClientOnce

Events with a deterministic id. The usage threshold of a client is emitted with one id for each
week, at every request that finds it reached, and `INSERT OR IGNORE` takes the first; but it looks
for the id in the rows that retention has left.

* `StillKept`: an event id that was appended before is still in the log when it is emitted again.
* `once_iff_guarded`: in a run no event is appended twice, nor shown twice on the stream, exactly
  when every emission finds the rows of its id kept; rows that are `Recent` are.
-/

namespace InferenceEngine

open Feed Lts

instance (a b : ClientEvent) : Decidable (a.SameEvent b) := inferInstanceAs (Decidable (_ ∧ _))

namespace FeedState

variable {r : Retention} {me : String} {s s' t : FeedState} {l : FeedLabel}

/-- No event of a client was appended twice, and none was shown to the client twice. -/
structure Once (s : FeedState) : Prop where
  appended : s.appended.Pairwise fun a b => ¬ a.SameEvent b
  received : s.received.Pairwise fun a b => ¬ a.SameEvent b

/-- The rows that an emission may repeat. -/
def repeats (s : FeedState) (e : ClientEventLog.NewEvent) : List ClientEvent :=
  s.appended.filter fun row => row.clientId = e.clientId && row.eventId = e.eventId

/-- What is emitted again is still in the log. -/
def StillKept (s : FeedState) (l : FeedLabel) : Prop :=
  ∀ e, l = .emit e → ∀ row ∈ s.repeats e, row ∈ s.log.rows

/-- What is emitted again is too recent for retention. -/
def Spared (r : Retention) (s : FeedState) (l : FeedLabel) : Prop :=
  ∀ e, l = .emit e → ∀ row ∈ s.repeats e, ClientEventLog.Recent r s.appended row

theorem eq_of_sameEvent {rows : List ClientEvent} {a b : ClientEvent}
    (h : rows.Pairwise fun a b => ¬ a.SameEvent b) (ha : a ∈ rows) (hb : b ∈ rows)
    (hsame : a.SameEvent b) : a = b := by
  have hsymm : Std.Symm fun a b : ClientEvent => ¬ a.SameEvent b :=
    ⟨fun a b hab hba => hab ⟨hba.1.symm, hba.2.symm⟩⟩
  by_contra hne
  exact h.forall ha hb hne hsame

theorem received_once (hinv : Inv me s) (h : s.appended.Pairwise fun a b => ¬ a.SameEvent b) :
    s.received.Pairwise fun a b => ¬ a.SameEvent b := by
  have hsub : s.received.Sublist s.shown := List.sublist_append_left ..
  refine (hinv.shown.sublist hsub).imp_of_mem fun {a b} ha hb hlt hsame => ?_
  have heq := eq_of_sameEvent h (hinv.mine a (hsub.subset ha)).1
      (hinv.mine b (hsub.subset hb)).1 hsame
  rw [heq] at hlt
  exact Nat.lt_irrefl _ hlt

/-- An emission keeps to once exactly when what it repeats is still in the log. -/
theorem emit_once_iff (hinv : Inv me s) (h : s.appended.Pairwise fun a b => ¬ a.SameEvent b)
    (r : Retention) (e : ClientEventLog.NewEvent) :
    ((s.emit r e).appended.Pairwise fun a b => ¬ a.SameEvent b) ↔
      ∀ row ∈ s.repeats e, row ∈ s.log.rows := by
  have hrepeats : ∀ row, row ∈ s.repeats e ↔
      row ∈ s.appended ∧ row.clientId = e.clientId ∧ row.eventId = e.eventId := by
    intro row
    simp [repeats, List.mem_filter]
  rcases emit_cases s r e with ⟨hknown, heq⟩ | ⟨hknown, heq⟩
  · -- the row that is found is the only one of its event
    rw [heq]
    refine iff_of_true h fun row hrow => ?_
    obtain ⟨hmem, hrowSame⟩ := (hrepeats row).mp hrow
    obtain ⟨found, hfound, hfoundSame⟩ := List.any_eq_true.mp hknown
    simp only [Bool.and_eq_true, decide_eq_true_eq] at hfoundSame
    have hsame : row.SameEvent found :=
      ⟨hrowSame.1.trans hfoundSame.1.symm, hrowSame.2.trans hfoundSame.2.symm⟩
    rw [eq_of_sameEvent h hmem (hinv.rows.subset hfound) hsame]
    exact hfound
  · rw [heq]
    have hnone : ∀ row ∈ s.log.rows, ¬ (row.clientId = e.clientId ∧ row.eventId = e.eventId) := by
      intro row hrow
      have hnot := List.any_eq_false.mp hknown row hrow
      simpa using hnot
    constructor
    · intro hnew row hrow
      obtain ⟨hmem, hsame⟩ := (hrepeats row).mp hrow
      exact absurd hsame ((List.pairwise_append.mp hnew).2.2 row hmem _ (List.mem_singleton_self _))
    · intro hkept
      refine List.pairwise_append.mpr ⟨h, List.pairwise_singleton _ _,
        fun row hrow new hnew hsame => ?_⟩
      rw [List.mem_singleton.mp hnew] at hsame
      exact hnone row (hkept row ((hrepeats row).mpr ⟨hrow, hsame⟩)) hsame

theorem step_once_iff (hinv : Inv me s) (h : s.Once) (hstep : s.step r me l = some s') :
    s'.Once ↔ s.StillKept l := by
  have hinv' := step_inv hinv hstep
  rcases step_writes hstep with ⟨e, rfl, rfl⟩ | ⟨hl, -, happended, -⟩
  · constructor
    · intro hnew e' he'
      cases he'
      exact (emit_once_iff hinv h.appended r e).mp hnew.appended
    · intro hkept
      have hnew := (emit_once_iff hinv h.appended r e).mpr (hkept e rfl)
      exact ⟨hnew, received_once hinv' hnew⟩
  · have hsame : s'.appended.Pairwise fun a b => ¬ a.SameEvent b := by
      rw [happended]
      exact h.appended
    exact iff_of_true ⟨hsame, received_once hinv' hsame⟩ fun e he => absurd he (hl e)

/-- Retention spares what is recent. -/
structure Keeping (r : Retention) (me : String) (s : FeedState) : Prop extends Inv me s where
  recent : ∀ row ∈ s.appended, ClientEventLog.Recent r s.appended row → row ∈ s.log.rows

theorem step_keeping (h : Keeping r me s) (hstep : s.step r me l = some s') : Keeping r me s' := by
  refine { step_inv h.toInv hstep with recent := ?_ }
  rcases step_writes hstep with ⟨e, rfl, rfl⟩ | ⟨-, hlog, happended, -⟩
  · rcases emit_cases s r e with ⟨-, heq⟩ | ⟨hknown, heq⟩
    · rw [heq]
      exact h.recent
    · rw [heq]
      intro row hrow hrecent
      show row ∈ (s.log.append r e).2.rows
      rw [(ClientEventLog.append_new hknown).2]
      have hin : row ∈ s.log.rows ++ [s.log.newRow e] := by
        rcases List.mem_append.mp hrow with hrow | hrow
        · exact List.mem_append_left _ (h.recent row hrow hrecent.of_append)
        · exact List.mem_append_right _ hrow
      exact ClientEventLog.mem_append_of_recent (s.log.inserted_ascending e) (h.rows.append_right _)
        hin hrecent
  · rw [hlog, happended]
    exact h.recent

/-- In a run of emissions and connections, for any retention: no event is appended twice to a
client's log or shown to it twice exactly when every event id that is emitted again is still in the
log. For that it is enough that fewer than `max_per_client` events of the client have come since,
and none of them later than `max_age`. -/
theorem once_iff_guarded {r : Retention} {me : String} {ls : List FeedLabel} {t : FeedState}
    (hrun : Run (step r me) {} ls t) :
    (Always (step r me) Once {} ls ↔ Guarded (step r me) StillKept {} ls) ∧
      (Guarded (step r me) (Spared r) {} ls → Guarded (step r me) StillKept {} ls) := by
  constructor
  · refine hrun.always_iff_guarded_of_invariant (I := Inv me) ?_ ?_ (init_inv me) ⟨.nil, .nil⟩
    · intro s l s' hs hst
      exact step_inv hs hst
    · intro s l s' hs honce hst
      exact step_once_iff hs honce hst
  · have hstart : Keeping r me {} := { init_inv me with recent := by simp }
    refine Guarded.mono_of_invariant (I := Keeping r me) ?_ ?_ hstart
    · intro s l s' hs hst
      exact step_keeping hs hst
    · intro s l hs hspared e he row hrow
      exact hs.recent row (List.mem_of_mem_filter hrow) (hspared e he row hrow)

def threshold : ClientEventLog.NewEvent where
  clientId := "c1"
  eventId := "usage.threshold.weekly.c1.0.0.8"
  type := "usage.threshold.reached"
  payload := "\x7b\x7d"
  now := 100

/-- The threshold is reached, a plan changes, and the next request of the same week finds it
reached. -/
def thresholdTwice : List FeedLabel :=
  [.connect true, .emit threshold, .resume, .receive, .resume,
    .emit (newEvent "c1" "evt_1.plan_changed"), .emit threshold, .resume, .resume, .receive]

/-- With a limit of one event, the same event is appended and shown again. -/
theorem shown_twice :
    ∃ t, Run (step { maxPerClient := 1 } "c1") {} thresholdTwice t ∧
      t.received.map (·.eventId) = [threshold.eventId, threshold.eventId] ∧ ¬ t.Once := by
  have hexec : (exec (step { maxPerClient := 1 } "c1") {} thresholdTwice).map
      (fun t => (t.received.map (·.eventId),
        decide (t.received.Pairwise fun a b => ¬ a.SameEvent b))) =
      some ([threshold.eventId, threshold.eventId], false) := by
    decide +kernel
  obtain ⟨t, hrun, ht⟩ := run_of_exec_map hexec
  obtain ⟨hshown, htwice⟩ := Prod.mk.inj ht
  exact ⟨t, hrun, hshown, fun honce => of_decide_eq_false htwice honce.received⟩

/-- Without limits it is not. -/
theorem once_iff_guarded_unlimited :
    ∃ t, Run (step {} "c1") {} thresholdTwice t ∧
      t.appended.map (·.eventId) = [threshold.eventId, "evt_1.plan_changed"] ∧
      Always (step {} "c1") Once {} thresholdTwice := by
  have hexec : (exec (step {} "c1") {} thresholdTwice).map (fun t => t.appended.map (·.eventId)) =
      some [threshold.eventId, "evt_1.plan_changed"] := by
    decide +kernel
  obtain ⟨t, hrun, ht⟩ := run_of_exec_map hexec
  obtain ⟨hiff, hspared⟩ := once_iff_guarded hrun
  refine ⟨t, hrun, ht, hiff.mpr (hspared (Guarded.of_forall ?_ _ _))⟩
  intro s l e _ row _
  exact ⟨fun hpos => absurd hpos (Nat.lt_irrefl 0), fun hpos => absurd hpos (lt_irrefl 0)⟩

end FeedState

end InferenceEngine
