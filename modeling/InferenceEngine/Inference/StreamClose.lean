import InferenceEngine.Inference.StreamDelivery

/-!
# Inference.StreamClose

A stream that may be closed while it is being consumed: can the consumer be left waiting?

`aclose` gives the worker one permit more than there are places in the queue, and the worker then
offers its terminal without a place. On a full queue `put_nowait` loses it. A consumer that drains
the queue before `aclose` has come back from its join then waits for an item that never comes.

* `Sound`: what holds in every run, closed or not. A token always finds its place (`token_room`).
* `owed_step`, `waits_step`: as long as no terminal is lost before `_exhausted` is set, a consumer
  that waits has an item coming.
* `lost_stuck`: once one is lost, the consumer can get stuck.
-/

namespace InferenceEngine

open Lts

/-- The worker has offered its terminal. -/
def Worker.offered : Worker → Bool
  | .notify | .ended => true
  | _ => false

/-- The worker will offer a token, whatever is cancelled meanwhile. -/
def Worker.committed : Worker → Nat
  | .next | .offer _ => 1
  | _ => 0

namespace Stream

structure Sound (s : Stream) : Prop where
  positive : 1 ≤ s.maxsize
  cancel : s.cancel = s.closed
  permits : s.cap + s.worker.reserved + s.inFlight.countP Item.isToken =
    s.maxsize + s.closed.toNat
  committed : s.worker.committed + s.inFlight.countP Item.isToken ≤ s.maxsize
  tokens : s.worker.offered = false → ∀ x ∈ s.inFlight, x.isToken = true
  last : ∀ l t r, s.inFlight = l ++ .terminal t :: r → r = []
  notified : .fireOnDone ∈ s.chan → s.worker = .ended
  ended : ∀ e, s.consumer = .ended e → s.exhausted = true

variable {s s' : Stream}

theorem sound_init (p : Producer) (pt : Nat) {m : Nat} (hm : 1 ≤ m) : (init p pt m).Sound where
  positive := hm
  cancel := rfl
  permits := by simp [init, inFlight, Worker.reserved, closed]
  committed := by simp [init, inFlight, Worker.committed]
  tokens := by simp [init, inFlight]
  last := by simp [init, inFlight]
  notified := by simp [init]
  ended := by simp [init]

/-- A token the event loop is about to put finds a place. -/
theorem token_room (hs : s.Sound) {text : String} {rest : List Callback}
    (hch : s.chan = .put (.token text) :: rest) : s.queue.length < s.maxsize := by
  have htok : ∀ x ∈ s.queue, x.isToken = true := by
    intro x hx
    cases x with
    | token text => rfl
    | terminal t =>
      obtain ⟨l, r, hq⟩ := List.append_of_mem hx
      have hnil := hs.last l t (r ++ .token text :: rest.filterMap Callback.item)
        (by simp [inFlight, hch, hq, Callback.item])
      simp at hnil
  have hlen : s.queue.countP Item.isToken = s.queue.length := List.countP_eq_length.mpr htok
  have hcom := hs.committed
  simp only [inFlight, hch, List.filterMap_cons, Callback.item, List.countP_append,
    List.countP_cons, hlen, Item.isToken, if_true] at hcom
  omega

theorem committed_le_reserved (w : Worker) : w.committed ≤ w.reserved := by
  cases w <;> simp [Worker.committed, Worker.reserved]

theorem move_sound (hs : s.Sound) {w : Worker} {cap waits : Nat} {script : List String}
    (hs' : s' = { s with
      worker := w
      cap := cap
      script := script
      backpressureWaits := waits })
    (hperm : cap + w.reserved = s.cap + s.worker.reserved)
    (hcom : s.closed = true → w.committed ≤ s.worker.committed)
    (hoff : s.worker.offered = false) : s'.Sound := by
  subst hs'
  exact {
    positive := hs.positive
    cancel := hs.cancel
    permits := by
      have := hs.permits
      simp only [inFlight, closed] at this ⊢
      omega
    committed := by
      have hp := hs.permits
      have hc := hs.committed
      have hw := committed_le_reserved w
      simp only [inFlight] at hp hc ⊢
      cases hcl : s.closed with
      | true => have := hcom hcl; omega
      | false => simp only [hcl, Bool.toNat_false] at hp; omega
    tokens := fun _ => hs.tokens hoff
    last := hs.last
    notified := by
      intro hmem
      rw [hs.notified hmem] at hoff
      cases hoff
    ended := hs.ended }

theorem inFlight_sent (cb : Callback) (hq : s'.queue = s.queue) (hc : s'.chan = s.chan ++ [cb]) :
    s'.inFlight = s.inFlight ++ cb.item.toList := by
  cases cb <;> simp [inFlight, hq, hc, Callback.item]

theorem offer_sound (hs : s.Sound) {text : String} (hw : s.worker = .offer text)
    (hs' : s' = { s with
      chan := s.chan ++ [.put (.token text)]
      worker := .loopTop }) : s'.Sound := by
  have hin : s'.inFlight = s.inFlight ++ [.token text] :=
    inFlight_sent (.put (.token text)) (by rw [hs']) (by rw [hs'])
  have hcount : s'.inFlight.countP Item.isToken = s.inFlight.countP Item.isToken + 1 := by
    simp [hin, Item.isToken]
  have htok : ∀ x ∈ s'.inFlight, x.isToken = true := by
    intro x hx
    rw [hin, List.mem_append] at hx
    rcases hx with hx | hx
    · exact hs.tokens (by rw [hw]; rfl) x hx
    · rw [List.mem_singleton.mp hx]; rfl
  have hperm := hs.permits
  have hcom := hs.committed
  simp only [hw, Worker.reserved, Worker.committed] at hperm hcom
  exact {
    positive := by rw [hs']; exact hs.positive
    cancel := by rw [hs']; exact hs.cancel
    permits := by
      rw [hcount, hs']
      simp only [Worker.reserved, closed] at hperm ⊢
      omega
    committed := by
      rw [hcount, hs']
      simp only [Worker.committed]
      omega
    tokens := fun _ => htok
    last := by
      intro l t r h
      have := htok (.terminal t) (by rw [h]; simp)
      cases this
    notified := by
      intro hmem
      have := hs.notified (by simpa [hs'] using hmem)
      rw [hw] at this
      cases this
    ended := by rw [hs']; exact hs.ended }

/-- The worker sends its terminal, for which it holds no permit. -/
theorem terminal_sound (hs : s.Sound) {t : Terminal} (hw : s.worker = .terminal t)
    (hs' : s' = { s with
      chan := s.chan ++ [.put (.terminal t)]
      worker := .notify }) : s'.Sound := by
  have hin : s'.inFlight = s.inFlight ++ [.terminal t] :=
    inFlight_sent (.put (.terminal t)) (by rw [hs']) (by rw [hs'])
  have hcount : s'.inFlight.countP Item.isToken = s.inFlight.countP Item.isToken := by
    simp [hin, Item.isToken]
  have hperm := hs.permits
  have hcom := hs.committed
  simp only [hw, Worker.reserved, Worker.committed] at hperm hcom
  exact {
    positive := by rw [hs']; exact hs.positive
    cancel := by rw [hs']; exact hs.cancel
    permits := by rw [hcount, hs']; exact hperm
    committed := by rw [hcount, hs']; exact hcom
    tokens := by simp [hs', Worker.offered]
    last := by
      intro l t' r h
      rw [hin] at h
      rcases List.eq_nil_or_concat r with rfl | ⟨r', x, rfl⟩
      · rfl
      · rw [List.concat_eq_append, ← List.cons_append, ← List.append_assoc] at h
        obtain ⟨hl, -⟩ := List.append_inj' h rfl
        have := hs.tokens (by rw [hw]; rfl) (.terminal t') (by rw [hl]; simp)
        cases this
    notified := by
      intro hmem
      have := hs.notified (by simpa [hs'] using hmem)
      rw [hw] at this
      cases this
    ended := by rw [hs']; exact hs.ended }

theorem notify_sound (hs : s.Sound) (hw : s.worker = .notify)
    (hs' : s' = { s with
      chan := s.chan ++ [.fireOnDone]
      worker := .ended }) : s'.Sound := by
  have hin : s'.inFlight = s.inFlight := by
    rw [inFlight_sent .fireOnDone (s := s) (by rw [hs']) (by rw [hs'])]
    exact List.append_nil _
  have hperm := hs.permits
  have hcom := hs.committed
  simp only [hw, Worker.reserved, Worker.committed] at hperm hcom
  exact {
    positive := by rw [hs']; exact hs.positive
    cancel := by rw [hs']; exact hs.cancel
    permits := by rw [hin, hs']; exact hperm
    committed := by rw [hin, hs']; exact hcom
    tokens := by simp [hs', Worker.offered]
    last := by rw [hin]; exact hs.last
    notified := fun _ => by rw [hs']
    ended := by rw [hs']; exact hs.ended }

theorem step_work_sound (hs : s.Sound) (h : s.work = some s') : s'.Sound := by
  cases works h with
  | acquires hw hcap =>
    rcases hw with hw | hw
    · refine move_sound hs rfl ?_ (by simp [Worker.committed]) (by simp [hw, Worker.offered])
      simp only [hw, Worker.reserved]
      omega
    · refine move_sound hs rfl ?_ (by simp [Worker.committed]) (by simp [hw, Worker.offered])
      simp only [hw, Worker.reserved]
      omega
  | rechecks hw hcancel =>
    -- the second look at the event: past it the token is certain
    refine move_sound hs rfl (by simp [hw, Worker.reserved]) ?_ (by simp [hw, Worker.offered])
    intro hcl
    rw [hs.cancel, hcl] at hcancel
    cases hcancel
  | yields text rest hw _ =>
    exact move_sound hs rfl (by simp [hw, Worker.reserved]) (by simp [hw, Worker.committed])
      (by simp [hw, Worker.offered])
  | offers text hw => exact offer_sound hs hw rfl
  | terminates t hw => exact terminal_sound hs hw rfl
  | notifies hw => exact notify_sound hs hw rfl
  | startFails _ hw _ | starts hw _ | cancelled hw _ | loops hw _ | blocks hw
  | rechecksCancelled hw _ | ends hw _ | closes hw =>
    exact move_sound hs rfl (by simp [hw, Worker.reserved]) (by simp [Worker.committed])
      (by simp [hw, Worker.offered])

theorem fireOnDone_sound (hs : s.Sound) : s.fireOnDone.Sound := by
  simp only [fireOnDone]
  split
  · exact hs
  · exact { hs with }

theorem step_callback_sound (hs : s.Sound) (h : s.runCallback = some s') : s'.Sound := by
  rcases runCallback_cases h with
    ⟨item, rest, hch, -, rfl⟩ | ⟨item, rest, hch, hfull, rfl⟩ | ⟨rest, hch, rfl⟩
  · have hin : (s.queue ++ [item]) ++ rest.filterMap Callback.item = s.inFlight := by
      simp [inFlight, hch, Callback.item]
    exact { hs with
      permits := by rw [inFlight, hin]; exact hs.permits
      committed := by rw [inFlight, hin]; exact hs.committed
      tokens := by rw [inFlight, hin]; exact hs.tokens
      last := by rw [inFlight, hin]; exact hs.last
      notified := fun hmem => hs.notified (by rw [hch]; exact List.mem_cons_of_mem _ hmem) }
  · -- only a terminal can find the queue full, and nothing follows it
    cases item with
    | token text => exact absurd (token_room hs hch) (Nat.not_lt.mpr hfull)
    | terminal t =>
      have hin : s.inFlight = s.queue ++ .terminal t :: rest.filterMap Callback.item := by
        simp [inFlight, hch, Callback.item]
      have hrest := hs.last _ _ _ hin
      have hin' : s.inFlight = s.queue ++ [.terminal t] := by rw [hin, hrest]
      have hcount : s.queue.countP Item.isToken = s.inFlight.countP Item.isToken := by
        simp [hin', Item.isToken]
      have hq : s.queue ++ rest.filterMap Callback.item = s.queue := by rw [hrest, List.append_nil]
      exact { hs with
        permits := by rw [inFlight, hq, hcount]; exact hs.permits
        committed := by rw [inFlight, hq, hcount]; exact hs.committed
        tokens := by
          intro hoff x hx
          rw [inFlight, hq] at hx
          exact hs.tokens hoff x (by rw [hin']; exact List.mem_append_left _ hx)
        last := by
          intro l t' r h
          rw [inFlight, hq] at h
          have := hs.last l t' (r ++ [.terminal t]) (by rw [hin', h]; simp)
          simp at this
        notified := fun hmem => hs.notified (by rw [hch]; exact List.mem_cons_of_mem _ hmem) }
  · have hin : s.queue ++ rest.filterMap Callback.item = s.inFlight := by
      simp only [inFlight, hch, List.filterMap_cons, Callback.item]
    refine fireOnDone_sound (s := { s with chan := rest }) ?_
    exact { hs with
      permits := by rw [inFlight, hin]; exact hs.permits
      committed := by rw [inFlight, hin]; exact hs.committed
      tokens := by rw [inFlight, hin]; exact hs.tokens
      last := by rw [inFlight, hin]; exact hs.last
      notified := fun hmem => hs.notified (by rw [hch]; exact List.mem_cons_of_mem _ hmem) }

theorem consume_sound (hs : s.Sound) {item : Item} {rest : List Item}
    (hq : s.queue = item :: rest) : (s.consume rest item).Sound := by
  have hin : s.inFlight = item :: (rest ++ s.chan.filterMap Callback.item) := by
    simp [inFlight, hq]
  have hperm := hs.permits
  have hcom := hs.committed
  rw [hin, List.countP_cons] at hperm hcom
  have htokens : s.worker.offered = false →
      ∀ x ∈ rest ++ s.chan.filterMap Callback.item, x.isToken = true :=
    fun hoff x hx => hs.tokens hoff x (by rw [hin]; exact List.mem_cons_of_mem _ hx)
  have hlast : ∀ l t r, rest ++ s.chan.filterMap Callback.item = l ++ .terminal t :: r → r = [] :=
    fun l t r h => hs.last (item :: l) t r (by rw [hin, h]; rfl)
  cases item with
  | token text =>
    simp only [Item.isToken, if_true] at hperm hcom
    exact { hs with
      permits := by
        simp only [consume, inFlight, closed] at hperm ⊢
        omega
      committed := by
        simp only [consume, inFlight]
        omega
      tokens := htokens
      last := hlast
      ended := by simp [consume] }
  | terminal t =>
    simp only [Item.isToken, Bool.false_eq_true, if_false, Nat.add_zero] at hperm hcom
    refine fireOnDone_sound ?_
    exact { hs with
      permits := hperm
      committed := hcom
      tokens := htokens
      last := hlast
      ended := fun _ _ => rfl }

theorem aclose_sound (hs : s.Sound) : s.aclose.Sound := by
  simp only [aclose]
  split
  · exact hs
  · rename_i hcl
    have hcl : s.closed = false := by simpa using hcl
    have hperm := hs.permits
    exact { hs with
      cancel := rfl
      permits := by
        have hjoin : (Closing.joining != Closing.notClosed).toNat = 1 := rfl
        simp only [hcl, Bool.toNat_false] at hperm
        simp only [inFlight, closed, hjoin] at hperm ⊢
        omega
      committed := hs.committed }

theorem sound_step (hs : s.Sound) {e : Ev} (h : step s e = some s') : s'.Sound := by
  cases e with
  | work => exact step_work_sound hs h
  | stopEarly e =>
    simp only [step] at h
    split at h <;> cases h
    rename_i hn
    exact move_sound hs rfl (by simp [hn.1, Worker.reserved]) (by simp [Worker.committed])
      (by simp [hn.1, Worker.offered])
  | closeRaises e =>
    simp only [step] at h
    split at h <;> cases h
    rename_i hw
    exact move_sound hs rfl (by simp [hw, Worker.reserved]) (by simp [Worker.committed])
      (by simp [hw, Worker.offered])
  | callback => exact step_callback_sound hs h
  | anext =>
    obtain ⟨hc, ⟨hx, rfl⟩ | ⟨item, rest, -, hq, rfl⟩ | ⟨-, -, rfl⟩⟩ := anext_cases h
    · exact { hs with ended := fun _ _ => hx }
    · exact consume_sound hs hq
    · exact { hs with ended := by simp }
  | getResume =>
    obtain ⟨-, item, rest, hq, rfl⟩ := getResume_cases h
    exact consume_sound hs hq
  | anextCancel =>
    simp only [step] at h
    split at h <;> cases h
    exact { hs with ended := by simp }
  | aclose => cases h; exact aclose_sound hs
  | acloseResume timedOut =>
    simp only [step, acloseResume] at h
    split at h <;> cases h
    rename_i hj
    have hcl : s.closed = true := by simp [closed, hj.1]
    refine fireOnDone_sound ?_
    exact { hs with
      cancel := by rw [hs.cancel, hcl]; rfl
      permits := by have := hs.permits; rw [hcl] at this; exact this
      ended := fun _ _ => rfl }
  | acloseCancel =>
    simp only [step] at h
    split at h <;> cases h
    rename_i hj
    have hcl : s.closed = true := by simp [closed, hj]
    exact { hs with
      cancel := by rw [hs.cancel, hcl]; rfl
      permits := by have := hs.permits; rw [hcl] at this; exact this }

/-- A terminal the worker has offered reaches the consumer, or `_exhausted` stands for it. -/
def Owed (s : Stream) : Prop :=
  s.worker.offered = true → s.exhausted = false → ∃ t, Item.terminal t ∈ s.inFlight

/-- A consumer in `queue.get()` has an item, or one is coming. -/
def Waits (s : Stream) : Prop :=
  s.worker.offered = true → s.consumer = .waiting →
    s.queue ≠ [] ∨ ∃ t, Item.terminal t ∈ s.inFlight

/-- The consumer waits for an item that nobody will put. -/
def Stuck (s : Stream) : Prop :=
  s.consumer = .waiting ∧ s.queue = [] ∧ s.worker = .ended ∧ ∀ item, Callback.put item ∉ s.chan

/-- The event loop is about to lose the terminal, and the consumer has not been told otherwise. -/
def LosesTerminal (s : Stream) (e : Ev) : Prop :=
  e = .callback ∧ s.exhausted = false ∧ s.maxsize ≤ s.queue.length ∧
    ∃ t rest, s.chan = .put (.terminal t) :: rest

instance (s : Stream) : Decidable (∃ t rest, s.chan = .put (.terminal t) :: rest) :=
  match h : s.chan with
  | .put (.terminal t) :: rest => .isTrue ⟨t, rest, rfl⟩
  | [] => .isFalse (by simp)
  | .put (.token _) :: _ => .isFalse (by simp)
  | .fireOnDone :: _ => .isFalse (by simp)

instance (s : Stream) (e : Ev) : Decidable (LosesTerminal s e) :=
  inferInstanceAs (Decidable (_ ∧ _ ∧ _ ∧ _))

theorem not_stuck (hw : s.Waits) : ¬ s.Stuck := by
  rintro ⟨hc, hq, hend, hput⟩
  rcases hw (by rw [hend]; rfl) hc with hne | ⟨t, hmem⟩
  · exact hne hq
  · simp only [inFlight, hq, List.nil_append, List.mem_filterMap] at hmem
    obtain ⟨cb, hcb, hitem⟩ := hmem
    cases cb with
    | put item => exact hput item hcb
    | fireOnDone => cases hitem

/-- The worker is done with offering only once its terminal is on the way. -/
theorem work_offered (h : s.work = some s') (hoff : s'.worker.offered = true) :
    (∃ t, Item.terminal t ∈ s'.inFlight) ∨
      s.worker.offered = true ∧ s'.inFlight = s.inFlight := by
  cases works h with
  | terminates t hw =>
    exact .inl ⟨t, by simp [inFlight, Callback.item]⟩
  | notifies hw =>
    exact .inr ⟨by rw [hw]; rfl, by simp [inFlight, Callback.item]⟩
  | _ => cases hoff

theorem step_work_waits (hw : s.Waits) (h : s.work = some s') : s'.Waits := by
  intro hoff hc
  obtain ⟨w, cap, script, chan, waits, rfl⟩ := work_frame h
  rcases work_offered h hoff with hmem | ⟨hoff', hin⟩
  · exact .inr hmem
  · rw [hin]
    exact hw hoff' hc

theorem step_work_owed (ho : s.Owed) (h : s.work = some s') : s'.Owed := by
  intro hoff hx
  obtain ⟨w, cap, script, chan, waits, rfl⟩ := work_frame h
  rcases work_offered h hoff with hmem | ⟨hoff', hin⟩
  · exact hmem
  · rw [hin]
    exact ho hoff' hx

@[simp] theorem fireOnDone_inFlight (s : Stream) : s.fireOnDone.inFlight = s.inFlight := by
  simp [inFlight]

/-- A full queue is not empty: even when the terminal is lost, a waiting consumer has an item. -/
theorem step_callback_waits (hs : s.Sound) (hw : s.Waits) (h : s.runCallback = some s') :
    s'.Waits := by
  intro hoff hc
  rcases runCallback_cases h with
    ⟨item, rest, hch, -, rfl⟩ | ⟨item, rest, hch, hfull, rfl⟩ | ⟨rest, hch, rfl⟩
  · exact .inl (by simp)
  · left
    intro hq
    have := hs.positive
    simp only at hq
    rw [hq, List.length_nil] at hfull
    omega
  · simp only [fireOnDone_worker, fireOnDone_consumer, fireOnDone_queue, fireOnDone_inFlight]
      at hoff hc ⊢
    have hin : s.queue ++ rest.filterMap Callback.item = s.inFlight := by
      simp only [inFlight, hch, List.filterMap_cons, Callback.item]
    simp only [inFlight, hin]
    exact hw hoff hc

theorem step_callback_owed (ho : s.Owed) (hok : ¬ LosesTerminal s .callback) (hs : s.Sound)
    (h : s.runCallback = some s') : s'.Owed := by
  intro hoff hx
  rcases runCallback_cases h with
    ⟨item, rest, hch, -, rfl⟩ | ⟨item, rest, hch, hfull, rfl⟩ | ⟨rest, hch, rfl⟩
  · have hin : (s.queue ++ [item]) ++ rest.filterMap Callback.item = s.inFlight := by
      simp [inFlight, hch, Callback.item]
    simp only [inFlight, hin]
    exact ho hoff hx
  · cases item with
    | token text => exact absurd (token_room hs hch) (Nat.not_lt.mpr hfull)
    | terminal t => exact absurd ⟨rfl, hx, hfull, t, rest, hch⟩ hok
  · simp only [fireOnDone_worker, fireOnDone_exhausted, fireOnDone_inFlight] at hoff hx ⊢
    have hin : s.queue ++ rest.filterMap Callback.item = s.inFlight := by
      simp only [inFlight, hch, List.filterMap_cons, Callback.item]
    simp only [inFlight, hin]
    exact ho hoff hx

theorem consume_waits {item : Item} {rest : List Item} : (s.consume rest item).Waits := by
  intro _ hc
  cases item with
  | token text => cases hc
  | terminal t => simp [consume, finish] at hc

theorem consume_owed (ho : s.Owed) {item : Item} {rest : List Item} (hq : s.queue = item :: rest) :
    (s.consume rest item).Owed := by
  intro hoff hx
  cases item with
  | token text =>
    obtain ⟨t, hmem⟩ := ho hoff hx
    refine ⟨t, ?_⟩
    simpa [inFlight, consume, hq] using hmem
  | terminal t => simp [consume, finish] at hx

theorem owed_step (hs : s.Sound) (ho : s.Owed) {e : Ev} (hok : ¬ LosesTerminal s e)
    (h : step s e = some s') : s'.Owed := by
  cases e with
  | work => exact step_work_owed ho h
  | stopEarly e => simp only [step] at h; split at h <;> cases h; intro hoff; cases hoff
  | closeRaises e => simp only [step] at h; split at h <;> cases h; intro hoff; cases hoff
  | callback => exact step_callback_owed ho hok hs h
  | anext =>
    obtain ⟨-, ⟨-, rfl⟩ | ⟨item, rest, -, hq, rfl⟩ | ⟨-, -, rfl⟩⟩ := anext_cases h
    · exact ho
    · exact consume_owed ho hq
    · exact ho
  | getResume =>
    obtain ⟨-, item, rest, hq, rfl⟩ := getResume_cases h
    exact consume_owed ho hq
  | anextCancel => simp only [step] at h; split at h <;> cases h; exact ho
  | aclose =>
    cases h
    simp only [aclose]
    split <;> exact ho
  | acloseResume timedOut =>
    simp only [step, acloseResume] at h
    split at h <;> cases h
    intro _ hx
    simp at hx
  | acloseCancel => simp only [step] at h; split at h <;> cases h; exact ho

theorem waits_step (hs : s.Sound) (ho : s.Owed) (hw : s.Waits) {e : Ev} (h : step s e = some s') :
    s'.Waits := by
  cases e with
  | work => exact step_work_waits hw h
  | stopEarly e => simp only [step] at h; split at h <;> cases h; intro hoff; cases hoff
  | closeRaises e => simp only [step] at h; split at h <;> cases h; intro hoff; cases hoff
  | callback => exact step_callback_waits hs hw h
  | anext =>
    obtain ⟨-, ⟨-, rfl⟩ | ⟨item, rest, -, -, rfl⟩ | ⟨hx, -, rfl⟩⟩ := anext_cases h
    · intro _ hc; cases hc
    · exact consume_waits
    · -- the consumer starts to wait only while it is owed the terminal
      intro hoff _
      exact .inr (ho hoff hx)
  | getResume =>
    obtain ⟨-, item, rest, -, rfl⟩ := getResume_cases h
    exact consume_waits
  | anextCancel => simp only [step] at h; split at h <;> cases h; intro _ hc; cases hc
  | aclose =>
    cases h
    simp only [aclose]
    split <;> exact hw
  | acloseResume timedOut =>
    simp only [step, acloseResume] at h
    split at h <;> cases h
    intro hoff hc
    simp only [fireOnDone_worker, fireOnDone_consumer, fireOnDone_queue, fireOnDone_inFlight]
      at hoff hc ⊢
    exact hw hoff hc
  | acloseCancel => simp only [step] at h; split at h <;> cases h; exact hw

theorem waiting_progress (hs : s.Sound) (hw : s.Waits) (hc : s.consumer = .waiting)
    (hq : s.queue = []) : ∃ s', s.work = some s' ∨ s.runCallback = some s' := by
  cases hch : s.chan with
  | cons cb rest =>
    cases cb with
    | put item => exact ⟨_, .inr (by simp only [runCallback, hch]; rfl)⟩
    | fireOnDone => exact ⟨_, .inr (by simp only [runCallback, hch]; rfl)⟩
  | nil =>
    have hin : s.inFlight = [] := by simp [inFlight, hq, hch]
    have hnoff : s.worker.offered = false := by
      by_contra hoff
      rcases hw (by simpa using hoff) hc with hne | ⟨t, hmem⟩
      · exact hne hq
      · simp [hin] at hmem
    simp only [work]
    cases h : s.worker with
    | blocked =>
      -- every permit is back
      have hperm := hs.permits
      have hpos := hs.positive
      simp only [h, hin, Worker.reserved, List.countP_nil] at hperm
      have hcap : 0 < s.cap := by omega
      exact ⟨_, .inl (if_pos hcap)⟩
    | notify => rw [h] at hnoff; cases hnoff
    | ended => rw [h] at hnoff; cases hnoff
    | start =>
      cases ho : s.producer.onCall with
      | none => exact ⟨_, .inl rfl⟩
      | some e => exact ⟨_, .inl rfl⟩
    | tryAcquire =>
      by_cases hcap : 0 < s.cap
      · exact ⟨_, .inl (if_pos hcap)⟩
      · exact ⟨_, .inl (if_neg hcap)⟩
    | recheck =>
      by_cases hcan : s.cancel = true
      · exact ⟨_, .inl (if_pos hcan)⟩
      · exact ⟨_, .inl (if_neg hcan)⟩
    | next =>
      cases hscr : s.script with
      | nil => exact ⟨_, .inl rfl⟩
      | cons text rest => exact ⟨_, .inl rfl⟩
    | loopTop => exact ⟨_, .inl rfl⟩
    | offer text => exact ⟨_, .inl rfl⟩
    | close => exact ⟨_, .inl rfl⟩
    | terminal t => exact ⟨_, .inl rfl⟩

/-- The worker and the event loop alone move for at most `rank` steps, and do not stop before a
waiting consumer has its item. -/
theorem waiting_handed (hs : s.Sound) (hw : s.Waits) (hc : s.consumer = .waiting) {ms : List Ev}
    {u : Stream} (h : Run step s ms u) (hms : ∀ e ∈ ms, e = .work ∨ e = .callback) :
    ms.length ≤ s.rank ∧
      (u.queue = [] → ∃ u', u.work = some u' ∨ u.runCallback = some u') := by
  have hrun := h.restrict (p := fun e => e = .work ∨ e = .callback) hms
  let I (s : Stream) : Prop := s.Sound ∧ s.Waits ∧ s.consumer = .waiting
  have hkeep : ∀ (s : Stream) (e : Ev) (s' : Stream), I s →
      (if e = .work ∨ e = .callback then step s e else none) = some s' → I s' := by
    rintro s e s' ⟨hs, hw, hc⟩ hst
    split at hst
    · rename_i he
      refine ⟨sound_step hs hst, ?_⟩
      rcases he with rfl | rfl
      · refine ⟨step_work_waits hw hst, ?_⟩
        obtain ⟨_, _, _, _, _, rfl⟩ := work_frame hst
        exact hc
      · refine ⟨step_callback_waits hs hw hst, ?_⟩
        rcases runCallback_cases hst with ⟨_, _, _, -, rfl⟩ | ⟨_, _, _, -, rfl⟩ | ⟨_, _, rfl⟩
        · exact hc
        · exact hc
        · simpa using hc
    · cases hst
  have hlower : ∀ (s : Stream) (e : Ev) (s' : Stream), I s →
      (if e = .work ∨ e = .callback then step s e else none) = some s' →
        s'.rank < s.rank + (fun _ => 0 : Ev → Nat) e := by
    rintro s e s' - hst
    split at hst
    · rename_i he
      rcases he with rfl | rfl
      · exact work_rank hst
      · exact callback_rank hst
    · cases hst
  have hlen := hrun.length_add_le rank (fun _ => 0) hkeep hlower ⟨hs, hw, hc⟩
  obtain ⟨hs', hw', hc'⟩ := hrun.invariant hkeep ⟨hs, hw, hc⟩
  refine ⟨?_, waiting_progress hs' hw' hc'⟩
  simp at hlen
  omega

/-- A consumer that is not told to stop empties a queue of tokens, and then waits. -/
theorem drain_waiting (q : List Item) (htok : ∀ x ∈ q, x.isToken = true) :
    ∀ s : Stream, s.queue = q → s.exhausted = false → (∀ e, s.consumer ≠ .ended e) →
      ∃ ms u, Run step s ms u ∧ u.consumer = .waiting ∧ u.queue = [] ∧ u.worker = s.worker ∧
        u.chan = s.chan := by
  induction q with
  | nil =>
    intro s hq hx hc
    cases hcons : s.consumer with
    | waiting => exact ⟨[], s, .refl, hcons, hq, rfl, rfl⟩
    | idle =>
      exact ⟨[.anext], { s with consumer := .waiting },
        .single (by simp [step, anext, hcons, hx, hq]), rfl, hq, rfl, rfl⟩
    | ended e => exact absurd hcons (hc e)
  | cons item rest ih =>
    intro s hq hx hc
    cases item with
    | terminal t => have := htok _ (List.mem_cons_self ..); cases this
    | token text =>
      obtain ⟨e, he⟩ : ∃ e, step s e = some (s.consume rest (.token text)) := by
        cases hcons : s.consumer with
        | waiting => exact ⟨.getResume, by simp [step, getResume, hcons, hq]⟩
        | idle => exact ⟨.anext, by simp [step, anext, hcons, hx, hq]⟩
        | ended e => exact absurd hcons (hc e)
      obtain ⟨ms, u, hrun, hu⟩ := ih (fun x hmem => htok x (List.mem_cons_of_mem _ hmem))
        (s.consume rest (.token text)) rfl hx (by simp [consume])
      exact ⟨e :: ms, u, .cons he hrun, hu⟩

theorem worker_ends (hoff : s.worker.offered = true) :
    ∃ ms v, Run step s ms v ∧ v.worker = .ended ∧ v.queue = s.queue ∧ v.exhausted = s.exhausted ∧
      v.consumer = s.consumer ∧ ∀ item, Callback.put item ∈ v.chan →
      Callback.put item ∈ s.chan := by
  cases hw : s.worker with
  | notify =>
    have hst : step s .work = some { s with
        chan := s.chan ++ [.fireOnDone]
        worker := .ended } := by
      simp only [step, work, hw]
    refine ⟨[.work], _, .single hst, rfl, rfl, rfl, rfl, ?_⟩
    intro item hmem
    simpa using hmem
  | ended => exact ⟨[], s, .refl, hw, rfl, rfl, rfl, fun _ hmem => hmem⟩
  | _ => rw [hw] at hoff; cases hoff

theorem lost_stuck (hs : s.Sound) {e : Ev} (hlost : LosesTerminal s e) (h : step s e = some s') :
    ∃ ms u, Run step s' ms u ∧ u.Stuck := by
  obtain ⟨rfl, hx, hfull, t, rest, hch⟩ := hlost
  have hs' : s' = { s with
      chan := rest
      dropped := s.dropped ++ [.terminal t] } := by
    simp only [step, runCallback, hch, putNowait, Nat.not_lt.mpr hfull, if_false,
      Option.some.injEq] at h
    exact h.symm
  have hin : s.inFlight = s.queue ++ .terminal t :: rest.filterMap Callback.item := by
    simp [inFlight, hch, Callback.item]
  have hrest : rest.filterMap Callback.item = [] := hs.last _ _ _ hin
  have hput : ∀ item, Callback.put item ∉ rest := by
    intro item hmem
    have := List.mem_filterMap.mpr ⟨_, hmem, (rfl : Callback.item (.put item) = some item)⟩
    simp [hrest] at this
  have htok : ∀ x ∈ s.queue, x.isToken = true := by
    intro x hmem
    cases x with
    | token text => rfl
    | terminal t' =>
      obtain ⟨l, r, hq⟩ := List.append_of_mem hmem
      have := hs.last l t' (r ++ .terminal t :: rest.filterMap Callback.item)
          (by rw [hin, hq]; simp)
      simp at this
  have hcons : ∀ e, s.consumer ≠ .ended e := by
    intro e hc
    rw [hs.ended e hc] at hx
    cases hx
  have hoff : s.worker.offered = true := by
    by_contra hno
    have := hs.tokens (by simpa using hno) (.terminal t) (by simp [hin])
    cases this
  subst hs'
  obtain ⟨ms, v, hv, hend, hvq, hvx, hvc, hvch⟩ := worker_ends (s := { s with
      chan := rest
      dropped := s.dropped ++ [.terminal t] }) hoff
  obtain ⟨ns, u, hu, huc, huq, huw, huch⟩ :=
    drain_waiting s.queue htok v hvq (by rw [hvx]; exact hx) (by rw [hvc]; exact hcons)
  refine ⟨ms ++ ns, u, hv.trans hu, huc, huq, by rw [huw, hend], ?_⟩
  intro item hmem
  rw [huch] at hmem
  exact hput item (hvch item hmem)

/-- **A waiting consumer is served, unless the event loop loses the terminal.** In every run in
which no terminal meets a full queue before `_exhausted` is set, the consumer is never stuck: while
it waits, the worker and the event loop can move until it has its item, which they do within `rank`
steps. Where a reachable state does lose the terminal so, the consumer can get stuck. -/
theorem waiting_consumer_served (p : Producer) (pt : Nat) {m : Nat} (hm : 1 ≤ m) {ls : List Ev}
    {t : Stream} (h : Run step (init p pt m) ls t) :
    (Guarded step (fun s e => ¬ LosesTerminal s e) (init p pt m) ls →
      ¬ t.Stuck ∧
      (t.consumer = .waiting → ∀ ms u, Run step t ms u → (∀ e ∈ ms, e = .work ∨ e = .callback) →
        ms.length ≤ t.rank ∧
          (u.queue = [] → ∃ u', u.work = some u' ∨ u.runCallback = some u'))) ∧
    (∀ e t', LosesTerminal t e → step t e = some t' → ∃ ms u, Run step t' ms u ∧ u.Stuck) := by
  have hinit := sound_init p pt hm
  constructor
  · intro hg
    have hinv : t.Sound ∧ t.Owed ∧ t.Waits := by
      refine h.invariant_of_guarded (P := fun s => s.Sound ∧ s.Owed ∧ s.Waits) ?_ hg ?_
      · rintro s e s' ⟨hs, ho, hw⟩ hok hst
        exact ⟨sound_step hs hst, owed_step hs ho hok hst, waits_step hs ho hw hst⟩
      · exact ⟨hinit, by simp [Owed, init, Worker.offered], by simp [Waits, init, Worker.offered]⟩
    refine ⟨not_stuck hinv.2.2, ?_⟩
    intro hc ms u hrun hms
    exact waiting_handed hinv.1 hinv.2.2 hc hrun hms
  · intro e t' hlost hst
    exact lost_stuck (h.invariant (fun s e s' hs hst => sound_step hs hst) hinit) hlost hst

/-- The consumer waits, and the stream is closed before its worker has produced anything. -/
def closedEarly : List Ev := [.anext, .aclose] ++ .replicate 5 .work

def oneToken : Producer where
  tokens := ["a"]
  fin := .returned none

def closedEarlyEnd : Stream := (exec step (init oneToken 0) closedEarly).get (by decide +kernel)

theorem waiting_consumer_served_closedEarly :
    Run step (init oneToken 0) closedEarly closedEarlyEnd ∧
      closedEarlyEnd.consumer = .waiting ∧ closedEarlyEnd.worker = .ended ∧
      closedEarlyEnd.queue = [] ∧ ¬ closedEarlyEnd.Stuck := by
  have hrun : Run step (init oneToken 0) closedEarly closedEarlyEnd :=
    run_of_exec (by simp [closedEarlyEnd])
  have hserved := waiting_consumer_served oneToken 0 (by decide) hrun
  exact ⟨hrun, by decide +kernel, by decide +kernel, by decide +kernel,
    (hserved.1 (by decide +kernel)).1⟩

/-- A stream of the default size, closed while its queue is full. -/
def closedFull : List Ev :=
  [.work] ++ (List.replicate 64 [.work, .work, .work, .work, .work, .callback]).flatten ++
    [.work, .work, .aclose] ++ .replicate 5 .work ++ [.callback, .callback] ++
    .replicate 65 .anext

def longProducer : Producer where
  tokens := .replicate 65 "a"
  fin := .returned none

def closedFullEnd : Stream :=
  (exec step (init longProducer 0) closedFull).get (by decide +kernel)

/-- Its consumer reads the 64 tokens and then waits for the terminal that was lost. -/
theorem closedFull_stuck :
    ∃ t, Run step (init longProducer 0) closedFull t ∧ t.Stuck := by
  refine ⟨closedFullEnd, run_of_exec (by simp [closedFullEnd]), by decide +kernel,
    by decide +kernel, by decide +kernel, ?_⟩
  have hchan : closedFullEnd.chan = [] := by decide +kernel
  simp [hchan]

end Stream
end InferenceEngine
