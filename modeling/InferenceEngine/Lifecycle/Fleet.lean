import InferenceEngine.Lifecycle.Shutdown
import InferenceEngine.Store.Ownership

/-!
# Lifecycle.Fleet

Any number of engines, each a lifespan that takes the locks of its store by the calls of
`Store.Ownership`, serves, cleans up and gives the locks back, or keeps them. What one of them finds
in its store when it has taken it is whatever the others have left there.

Requests are served only between the start and the end of a lifespan. Where a lifespan has `held`,
both its locks are in the table of the operating system (`Sound.owned`); where it has not, it has
ended, or not begun, and all its writers are still (`Sound.idle`). Two engines with a lock file in
common are therefore never both writing (`one_writer`).
-/

namespace InferenceEngine
namespace Fleet

open Lts FileLock StoreOwnership

structure Found where
  rows : List ModelRecord
  files : FileTree String
  ids_nodup : (rows.map (·.id)).Nodup

def Found.lifespan (found : Found) : Lifespan.St :=
  (Lifespan.St.init found.rows found.files).acquire true

/-- Between the start and the end. -/
def isOpen (s : Lifespan.St) : Bool := s.phase ≠ .idle && s.phase ≠ .ended

def isService : Lifespan.Label → Bool
  | .service _ => true
  | _ => false

/-- What the lifespan makes of the end of `acquire`. -/
def acquired (pc : Pc) (found : Found) (s : Lifespan.St) : Lifespan.St :=
  match pc with
  | .owned => found.lifespan
  | .failed _ => s.acquire false
  | _ => s

/-- The call with which the locks go. -/
def lockCall (label : Lifespan.Label) (s s' : Lifespan.St) : Option Call :=
  match label with
  | .exit => some .exit
  | _ => if s.held && !s'.held then some .release else none

/-- A lifespan that has not begun, or has ended and given up its locks. -/
structure Down (s : Lifespan.St) : Prop where
  phase : s.phase = .idle ∨ s.phase = .ended
  writers : s.liveWriters = []
  persist : s.persist = false

/-- The process is gone, or nothing in it can write the store. -/
def Still (s : Lifespan.St) : Prop := s.phase = .exited ∨ Lifespan.Quiet s

theorem Down.still {s : Lifespan.St} (h : Down s) (hinv : Lifespan.Inv s) : Still s := by
  have hquiet := hinv.quiet h.writers
  exact .inr ⟨hquiet.downloads, hquiet.webhooks, hquiet.handlers, h.persist⟩

theorem down_init (rows : List ModelRecord) (files : FileTree String) : Down (.init rows files) :=
  ⟨.inl rfl, rfl, rfl⟩

theorem Down.refused {s : Lifespan.St} (h : Down s) : Down (s.acquire false) :=
  ⟨.inr rfl, h.writers, h.persist⟩

theorem liveWriters_eq_nil {s : Lifespan.St} : s.liveWriters = [] ↔
    s.ownsWork = false ∧ (∀ w, s.webhooks = some w → w.phase = .done ∧ w.idle = true) ∧
      (s.grpc = .disabled ∨ s.grpc = .terminated) ∧
      (s.cleanup = none ∨ s.cleanup = some .completed) := by
  unfold Lifespan.St.liveWriters
  cases s.webhooks with
  | none => simp [or_iff_not_imp_left]
  | some w => simp [or_iff_not_imp_left, and_assoc]

theorem webhooks_done {w w' : WebhookTask.St} {l : WebhookTask.Label} (hphase : w.phase = .done)
    (hidle : w.idle = true) (hst : WebhookTask.step w l = some w') :
    w'.phase = .done ∧ w'.idle = true := by
  have hinflight : w.inflight ≠ some false := of_decide_eq_true hidle
  cases l with
  | run submits => simp [WebhookTask.step, hphase] at hst
  | threadReturns =>
    simp only [WebhookTask.step] at hst
    split at hst
    · cases hst; exact ⟨hphase, hidle⟩
    · cases hst
  | futureDone => simp [WebhookTask.step, hinflight] at hst
  | resume => simp [WebhookTask.step, hphase] at hst
  | requestStop => cases hst; exact ⟨hphase, hidle⟩
  | cancel => simp [WebhookTask.step, hphase] at hst
  | deliver =>
    simp only [WebhookTask.step, WebhookTask.St.deliver, hphase] at hst
    split at hst
    · cases hst; exact ⟨rfl, hidle⟩
    · cases hst

theorem Down.step {p : Paths} {s s' : Lifespan.St} {l : Lifespan.Label} (h : Down s)
    (hheld : s.held = false) (hacquire : ∀ succeeds, l ≠ .acquire succeeds)
      (hservice : isService l = false) (hst : Lifespan.step p s l = some s') :
    s'.held = false ∧ (s'.phase = .exited ∨ Down s') := by
  obtain ⟨hwork, hwebhooks, hgrpc, hcleanup⟩ := liveWriters_eq_nil.mp h.writers
  have hphase := h.phase
  unfold Lifespan.step at hst
  split at hst
  · cases hst
  cases l with
  | acquire succeeds => exact absurd rfl (hacquire succeeds)
  | service label => cases hservice
  | exit => cases hst; exact ⟨rfl, .inl rfl⟩
  | collect =>
    simp only at hst
    split at hst
    · cases hst; exact ⟨rfl, .inr ⟨h.phase, h.writers, h.persist⟩⟩
    · cases hst
  | webhooks label =>
    obtain ⟨w, hw, hst⟩ := Option.bind_eq_some_iff.mp hst
    obtain ⟨w', hw', rfl⟩ := Option.map_eq_some_iff.mp hst
    refine ⟨hheld, .inr ⟨h.phase, liveWriters_eq_nil.mpr ⟨hwork, fun v hv => ?_, hgrpc,
      hcleanup⟩, h.persist⟩⟩
    obtain rfl := Option.some.inj hv
    exact webhooks_done (hwebhooks w hw).1 (hwebhooks w hw).2 hw'
  | edge label =>
    simp only at hst
    split at hst
    · cases hst
    · obtain ⟨edge, -, rfl⟩ := Option.map_eq_some_iff.mp hst
      exact ⟨hheld, .inr ⟨h.phase, h.writers, h.persist⟩⟩
  | begins | ends | cut =>
    rcases hcleanup with hcleanup | hcleanup <;> simp [Lifespan.St.ends, hcleanup] at hst
  | enter | startWebhooks | createGrpc | yields | leave | cancel | cleaned | drained =>
    rcases hphase with hphase | hphase <;> simp [Lifespan.St.leave, hphase] at hst

structure Sound (pc : Pc) (s : Lifespan.St) : Prop where
  inv : Lifespan.Inv s
  locks : Lifespan.Locks s
  owned : s.held = true → pc = .owned
  idle : s.held = false → s.phase = .exited ∨ Down s

theorem init_sound : Sound .idle (.init [] []) where
  inv := .init [] [] List.nodup_nil
  locks := ⟨fun _ => rfl, fun h => (by cases h)⟩
  owned := fun h => (by cases h)
  idle := fun _ => .inr (down_init [] [])

theorem found_sound (found : Found) :
    Lifespan.Inv found.lifespan ∧ Lifespan.Locks found.lifespan := by
  have h := Lifespan.Inv.init found.rows found.files found.ids_nodup
  exact ⟨⟨h.service, h.webhooks, h.edge, h.disabled, h.terminated⟩, fun h => (by cases h),
    fun h => (by cases h)⟩

/-- The locks are given up in a lifespan that is down. -/
theorem down_of_release {p : Paths} {s s' : Lifespan.St} {l : Lifespan.Label}
    (hlocks : Lifespan.Locks s) (hexit : l ≠ .exit) (hheld : s.held = true)
      (hfree : s'.held = false) (hst : Lifespan.step p s l = some s') : Down s' := by
  have hsame : s'.held ≠ s.held := by
    rw [hheld, hfree]
    decide
  cases Lifespan.lockStep hst with
  | acquire hidle _ _ => exact absurd (hlocks.idle hidle) (by simp [hheld])
  | move _ _ heq => exact absurd heq hsame
  | stay _ heq _ => exact absurd heq hsame
  | conclude _ heq =>
    subst heq
    unfold Lifespan.St.conclude at hfree ⊢
    split
    · exact ⟨.inr rfl, by assumption, rfl⟩
    · rename_i hlive
      rw [if_neg hlive] at hfree
      exact absurd (hheld.symm.trans hfree) (by decide)
  | collect hended hretained _ =>
    rw [hlocks.ended hended hheld] at hretained
    cases hretained
  | exit hl _ => exact absurd hl hexit

theorem Sound.call {old pc : Pc} {found : Found} {s : Lifespan.St} (h : Sound old s)
    (hold : old ≠ .owned) (hphase : s.phase ≠ .exited) : Sound pc (acquired pc found s) := by
  have hfree : s.held = false := Bool.eq_false_iff.mpr fun hheld => hold (h.owned hheld)
  have hdown := (h.idle hfree).resolve_left hphase
  have hsame : Sound pc s := ⟨h.inv, h.locks, fun hheld => absurd (h.owned hheld) hold, h.idle⟩
  unfold acquired
  split
  · exact ⟨(found_sound found).1, (found_sound found).2, fun _ => rfl, fun hnot => by cases hnot⟩
  · have hinv := h.inv
    refine ⟨⟨hinv.service, hinv.webhooks, hinv.edge, hinv.disabled, hinv.terminated⟩, ?_, ?_, ?_⟩
    · exact ⟨fun _ => hfree, fun _ hheld => absurd (hfree.symm.trans hheld) (by decide)⟩
    · exact fun hheld => absurd (hfree.symm.trans hheld) (by decide)
    · exact fun _ => .inr hdown.refused
  · exact hsame

/-- A lifespan that does not hold its locks does not come to hold them, and stays down. -/
theorem Sound.stays {pc : Pc} {p : Paths} {s s' : Lifespan.St} {label : Lifespan.Label}
    (h : Sound pc s) (hheld : s.held = false) (hacquire : ∀ succeeds, label ≠ .acquire succeeds)
      (hservice : isService label = true → isOpen s = true)
      (hturn : Lifespan.step p s label = some s') :
    s'.held = false ∧ (s'.phase = .exited ∨ Down s') := by
  rcases h.idle hheld with hexited | hdown
  · simp [Lifespan.step, hexited] at hturn
  · refine hdown.step hheld hacquire (Bool.eq_false_iff.mpr fun hs => ?_) hturn
    have hopen := hservice hs
    rcases hdown.phase with hphase | hphase <;> simp [isOpen, hphase] at hopen

theorem Sound.owned_of_not_still {pc : Pc} {s : Lifespan.St} (h : Sound pc s) (hnot : ¬ Still s) :
    pc = .owned := by
  cases hheld : s.held with
  | true => exact h.owned hheld
  | false =>
    rcases h.idle hheld with hexited | hdown
    · exact absurd (.inl hexited) hnot
    · exact absurd (hdown.still h.inv) hnot

/-! ## The fleet -/

structure St (ι F : Type) where
  store : StoreOwnership.St ι F
  lifespan : ι → Lifespan.St

inductive Label (ι : Type) where
  /-- a call of `acquire` or `release` -/
  | call (i : ι) (call : Call) (found : Found)
  | turn (i : ι) (label : Lifespan.Label)

variable {ι F : Type}

theorem sound_update [DecidableEq ι] {lifespans : ι → Lifespan.St} {store : StoreOwnership.St ι F}
    {i : ι} {lifespan : Lifespan.St} (hi : Sound (store.pc i) lifespan) (hothers : ∀ j, j ≠ i →
      Sound (store.pc j) (lifespans j)) (j : ι) :
    Sound (store.pc j) (Function.update lifespans i lifespan j) := by
  by_cases hj : j = i
  · subst hj
    rwa [Function.update_self]
  · rw [Function.update_of_ne hj]
    exact hothers j hj

variable [DecidableEq ι] [DecidableEq F]

def init : St ι F := ⟨StoreOwnership.init, fun _ => .init [] []⟩

def makes (c : Config ι F) (store : StoreOwnership.St ι F) (i : ι) :
    Option Call → Option (StoreOwnership.St ι F)
  | some call => StoreOwnership.step c store ⟨i, call⟩
  | none => some store

def step (c : Config ι F) (p : ι → Paths) (s : St ι F) : Label ι → Option (St ι F)
  | .call i call found =>
    if (call = .acquire ∨ (s.store.pc i).busy = true) ∧ (s.lifespan i).phase ≠ .exited then
      if call = .exit then none
      else
        (StoreOwnership.step c s.store ⟨i, call⟩).map fun store =>
          ⟨store, Function.update s.lifespan i (acquired (store.pc i) found (s.lifespan i))⟩
    else none
  | .turn i label =>
    match label with
    | .acquire _ => none
    | _ =>
      if isService label && !isOpen (s.lifespan i) then none
      else
        (Lifespan.step (p i) (s.lifespan i) label).bind fun lifespan =>
          (makes c s.store i (lockCall label (s.lifespan i) lifespan)).map fun store =>
            ⟨store, Function.update s.lifespan i lifespan⟩

variable {c : Config ι F} {p : ι → Paths} {s s' : St ι F} {l : Label ι}

theorem makes_others {store store' : StoreOwnership.St ι F} {i : ι} {call : Option Call}
    (hst : makes c store i call = some store') : ∀ j, j ≠ i → store'.pc j = store.pc j := by
  cases call with
  | none => cases hst; exact fun _ _ => rfl
  | some call => exact (step_left hst).2

/-- What a step of the fleet is made of. -/
inductive Moves (c : Config ι F) (p : ι → Paths) (s : St ι F) : St ι F → Prop where
  | call {i : ι} {call : Call} {found : Found} {store : StoreOwnership.St ι F}
      (hpc : s.store.pc i ≠ .owned)
      (hphase : (s.lifespan i).phase ≠ .exited) (hstore : StoreOwnership.step c s.store ⟨i,
        call⟩ = some store) :
      Moves c p s ⟨store, Function.update s.lifespan i (acquired (store.pc i) found (s.lifespan i))⟩
  | turn {i : ι} {label : Lifespan.Label} {lifespan : Lifespan.St} {store : StoreOwnership.St ι F}
      (hacquire : ∀ succeeds, label ≠ .acquire succeeds)
      (hservice : isService label = true → isOpen (s.lifespan i) = true)
      (hturn : Lifespan.step (p i) (s.lifespan i) label = some lifespan)
      (hstore : makes c s.store i (lockCall label (s.lifespan i) lifespan) = some store) :
      Moves c p s ⟨store, Function.update s.lifespan i lifespan⟩

theorem not_owned {store store' : StoreOwnership.St ι F} {i : ι} {call : Call}
    (hcall : call = .acquire ∨ (store.pc i).busy = true)
    (hst : StoreOwnership.step c store ⟨i, call⟩ = some store') : store.pc i ≠ .owned := by
  intro howned
  rcases hcall with rfl | hbusy
  · simp [StoreOwnership.step, howned] at hst
  · rw [howned] at hbusy
    cases hbusy

theorem step_moves (hst : step c p s l = some s') : Moves c p s s' := by
  cases l with
  | call i call found =>
    simp only [step] at hst
    split at hst
    · rename_i hmay
      split at hst
      · cases hst
      · obtain ⟨store, hstore, rfl⟩ := Option.map_eq_some_iff.mp hst
        exact .call (not_owned hmay.1 hstore) hmay.2 hstore
    · cases hst
  | turn i label =>
    simp only [step] at hst
    split at hst
    · cases hst
    rename_i hacquire
    split at hst
    · cases hst
    rename_i hservice
    obtain ⟨lifespan, hturn, hst⟩ := Option.bind_eq_some_iff.mp hst
    obtain ⟨store, hstore, rfl⟩ := Option.map_eq_some_iff.mp hst
    refine .turn (fun succeeds heq => hacquire succeeds heq) (fun hs => ?_) hturn hstore
    simpa [hs] using hservice

theorem exit_eq {p : Paths} {s s' : Lifespan.St} (hst : Lifespan.step p s .exit = some s') :
    s'.phase = .exited ∧ s'.held = false := by
  unfold Lifespan.step at hst
  split at hst
  · cases hst
  · cases hst
    exact ⟨rfl, rfl⟩

/-- The lifespan of an engine takes a turn, and its store follows. -/
theorem Sound.turn {store store' : StoreOwnership.St ι F} {i : ι} {p : Paths} {s s' : Lifespan.St}
    {label : Lifespan.Label} (h : Sound (store.pc i) s)
      (hacquire : ∀ succeeds, label ≠ .acquire succeeds)
      (hservice : isService label = true → isOpen s = true)
      (hturn : Lifespan.step p s label = some s')
      (hstore : makes c store i (lockCall label s s') = some store') : Sound (store'.pc i) s' := by
  refine ⟨h.inv.step hturn, Lifespan.step_locks h.locks hturn, fun hheld' => ?_, fun hfree' => ?_⟩
  · cases hheld : s.held with
    | false =>
      have hfree' := (h.stays hheld hacquire hservice hturn).1
      exact absurd (hfree'.symm.trans hheld') (by decide)
    | true =>
      have hcall : lockCall label s s' = none := by
        unfold lockCall
        split
        · rw [(exit_eq hturn).2] at hheld'
          cases hheld'
        · simp [hheld']
      rw [hcall] at hstore
      cases hstore
      exact h.owned hheld
  · cases hheld : s.held with
    | false => exact (h.stays hheld hacquire hservice hturn).2
    | true =>
      by_cases hexit : label = .exit
      · subst hexit
        exact .inl ((exit_eq hturn).1)
      · exact .inr (down_of_release h.locks hexit hheld hfree' hturn)

theorem step_sound (h : ∀ i, Sound (s.store.pc i) (s.lifespan i)) (hst : step c p s l = some s') :
    ∀ i, Sound (s'.store.pc i) (s'.lifespan i) := by
  cases step_moves hst with
  | @call i call found store hpc hphase hstore =>
    refine sound_update ((h i).call hpc hphase) fun j hj => ?_
    rw [(step_left hstore).2 j hj]
    exact h j
  | @turn i label lifespan store hacquire hservice hturn hstore =>
    refine sound_update ((h i).turn hacquire hservice hturn hstore) fun j hj => ?_
    rw [makes_others hstore j hj]
    exact h j

theorem makes_claimed {store store' : StoreOwnership.St ι F} {i : ι} {call : Option Call}
    (hc : Claimed (Claims c store) store.locks) (hst : makes c store i call = some store') :
    Claimed (Claims c store') store'.locks := by
  cases call with
  | none => cases hst; exact hc
  | some call => exact StoreOwnership.step_claimed hc hst

theorem step_claimed (hc : Claimed (Claims c s.store) s.store.locks)
    (hst : step c p s l = some s') :
    Claimed (Claims c s'.store) s'.store.locks := by
  cases step_moves hst with
  | call _ _ hstore => exact StoreOwnership.step_claimed hc hstore
  | turn _ _ _ hstore => exact makes_claimed hc hstore

theorem run_sound {ls : List (Label ι)} {t : St ι F} (hrun : Run (step c p) init ls t) :
    Claimed (Claims c t.store) t.store.locks ∧ ∀ i, Sound (t.store.pc i) (t.lifespan i) :=
  hrun.invariant
    (P := fun s => Claimed (Claims c s.store) s.store.locks ∧ ∀ i,
      Sound (s.store.pc i) (s.lifespan i))
    (fun _ _ _ h hst => ⟨step_claimed h.1 hst, step_sound h.2 hst⟩) ⟨init_claimed c,
      fun _ => init_sound⟩

/-- Two engines that find one file where one of their locks is are never both able to write: of one
the process is gone, or no download, no batch of webhooks, no request with a write to make and no
log is left in it. -/
theorem one_writer {ls : List (Label ι)} {t : St ι F} (hrun : Run (step c p) init ls t) {i j : ι}
    {r r' : Resource} (hne : i ≠ j) (hfile : c.file i r = c.file j r') :
    Still (t.lifespan i) ∨ Still (t.lifespan j) := by
  obtain ⟨hclaimed, hsound⟩ := run_sound hrun
  by_contra hnot
  obtain ⟨hi, hj⟩ := not_or.mp hnot
  have hholds : ∀ k, t.store.pc k = .owned → ∀ r, (t.store.pc k).holds r = true :=
      fun k hk r => by rw [hk]; rfl
  exact hne (holder_unique hclaimed (hholds i ((hsound i).owned_of_not_still hi) r)
    (hholds j ((hsound j).owned_of_not_still hj) r') hfile).1

section Example

def emptyStore : Found := ⟨[], [], List.nodup_nil⟩

/-- The cleanup of the first engine is cut short while a batch of webhooks is being sent; the second
is refused. -/
def cutShort : List (Label Nat) :=
  (attempt 0).map (fun l => .call l.engine l.call emptyStore) ++
    Lifespan.cutShort.tail.map (.turn 0) ++
    [.call 1 .acquire emptyStore, .call 1 (.openFile none) emptyStore,
      .call 1 (.lock none) emptyStore]

theorem one_writer_cutShort :
    ∃ t : St Nat (List String),
      Run (step sameStore fun _ => ModelService.plainPaths) init cutShort t ∧
      ¬ Still (t.lifespan 0) ∧ Still (t.lifespan 1) := by
  obtain ⟨t, hrun, ht⟩ : ∃ t : St Nat (List String),
      Run (step sameStore fun _ => ModelService.plainPaths) init cutShort t ∧
        ((t.lifespan 0).phase, (t.lifespan 0).webhooks.any (·.thread)) = (.ended, true) :=
          run_of_exec_map rfl
  obtain ⟨hphase, hthread⟩ := Prod.mk.inj ht
  have hbusy : ¬ Still (t.lifespan 0) := by
    rintro (hexited | hquiet)
    · cases hphase.symm.trans hexited
    · obtain ⟨w, hw, hrunning⟩ := (Option.any_eq_true _ _).mp hthread
      rw [hquiet.webhooks w hw] at hrunning
      cases hrunning
  have hfile : sameStore.file 0 .database = sameStore.file 1 .database := rfl
  exact ⟨t, hrun, hbusy, (one_writer hrun (by decide) hfile).resolve_left hbusy⟩

end Example

end Fleet
end InferenceEngine
