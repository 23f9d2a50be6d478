import InferenceEngine.Audit.Log
import InferenceEngine.Lib.Count
import InferenceEngine.Lib.Run

/-!
# Audit.Writers

Concurrent `AuditLog.record` calls on one database, interleaved at their SQL statements: `SELECT
hash` (outside a transaction, it sees the committed rows), `INSERT` (which opens a write transaction
and waits while another call holds one) and `COMMIT`. A call may raise at any of them; what it has
inserted is then rolled back. Ids follow the commits.

A call that has read keeps the number of rows it has seen beside the hash, for statements only.

* `record_verifies_iff`: the table is verified, with one row for each recorded event, when no row
  was committed between the read and the commit of a call; and, for a hash that does not collide,
  only then.
-/

namespace InferenceEngine

open Json Lts

structure RecordArgs (F : Type) where
  ts : String
  actor : String
  action : String
  target : Option String
  detail : Option (List (Text × Value F))
  sorted : ∀ items ∈ detail, (Value.obj items).Sorted

/-- `detail or {}` -/
def RecordArgs.detailOr {F : Type} (a : RecordArgs F) : Value F := .obj (a.detail.getD [])

namespace AuditDesk

variable {F : Type}

inductive Phase where
  | connected
  | read (prevHash : String) (seen : Nat)
  | inserted (row : AuditRow) (seen : Nat)
  | recorded
  | raised
  deriving DecidableEq, Repr

structure Call (F : Type) where
  args : RecordArgs F
  phase : Phase

end AuditDesk

/-- The committed rows, in the order of their ids, and every call of `record` that was made. -/
structure AuditDesk (F : Type) where
  rows : List AuditRow
  calls : List (AuditDesk.Call F)

namespace AuditDesk

variable {F : Type}

inductive Ev (F : Type) where
  | connect (args : RecordArgs F)
  | select (i : Nat)
  | insert (i : Nat)
  | commit (i : Nat)
  /-- the next statement of the call raises: the database is locked, the disk is full -/
  | fail (i : Nat)

def init : AuditDesk F := ⟨[], []⟩

/-- `_last_hash` -/
def lastHash (rows : List AuditRow) : String := AuditLog.endHash genesisHash rows

def Phase.isInserted : Phase → Bool
  | .inserted .. => true
  | _ => false

def Phase.isRecorded : Phase → Bool
  | .recorded => true
  | _ => false

/-- The rows that a call with an open transaction had seen. -/
def Phase.seen? : Phase → Option Nat
  | .inserted _ seen => some seen
  | _ => none

/-- The write lock is taken. -/
def locked (s : AuditDesk F) : Bool := s.calls.any fun c => c.phase.isInserted

def recorded (s : AuditDesk F) : Nat := s.calls.countP fun c => c.phase.isRecorded

variable (sha256 : String → String) (fl : Floats F)

/-- The row that a call inserts. -/
def newRow (id : Nat) (prevHash : String) (a : RecordArgs F) : AuditRow where
  id := id
  ts := a.ts
  actor := a.actor
  action := a.action
  target := a.target
  detail := dumps fl .spaced a.detailOr
  prevHash := prevHash
  hash := AuditLog.rowHash sha256 prevHash
    (AuditLog.canonical fl a.ts a.actor a.action a.target a.detailOr)

def step (s : AuditDesk F) : Ev F → Option (AuditDesk F)
  | .connect args => some { s with calls := s.calls ++ [⟨args, .connected⟩] }
  | .select i =>
    match s.calls[i]? with
    | some ⟨args, .connected⟩ =>
      some { s with calls := s.calls.set i ⟨args, .read (lastHash s.rows) s.rows.length⟩ }
    | _ => none
  | .insert i =>
    match s.calls[i]? with
    | some ⟨args, .read prevHash seen⟩ =>
      if s.locked then none
      else
        let row := newRow sha256 fl (s.rows.length + 1) prevHash args
        some { s with calls := s.calls.set i ⟨args, .inserted row seen⟩ }
    | _ => none
  | .commit i =>
    match s.calls[i]? with
    | some ⟨args, .inserted row _⟩ =>
      some ⟨s.rows ++ [row], s.calls.set i ⟨args, .recorded⟩⟩
    | _ => none
  | .fail i =>
    match s.calls[i]? with
    | some ⟨_, .recorded⟩ | some ⟨_, .raised⟩ | none => none
    | some ⟨args, _⟩ => some { s with calls := s.calls.set i ⟨args, .raised⟩ }

/-- A call commits with nothing committed since it read. -/
def Fresh (s : AuditDesk F) : Ev F → Prop
  | .commit i => ∀ c ∈ s.calls[i]?, ∀ seen ∈ c.phase.seen?, seen = s.rows.length
  | _ => True

/-- What holds in every state: a call has the last hash of the rows it has seen, and its row follows
them. -/
structure Sound (s : AuditDesk F) : Prop where
  read : ∀ c ∈ s.calls, ∀ prevHash seen, c.phase = .read prevHash seen →
    seen ≤ s.rows.length ∧ prevHash = lastHash (s.rows.take seen)
  inserted : ∀ c ∈ s.calls, ∀ row seen, c.phase = .inserted row seen →
    seen ≤ s.rows.length ∧ row.prevHash = lastHash (s.rows.take seen) ∧
      AuditLog.Follows sha256 fl row.prevHash row
  recorded : s.recorded = s.rows.length

theorem newRow_follows (id : Nat) (prevHash : String) (a : RecordArgs F) :
    AuditLog.Follows sha256 fl prevHash (newRow sha256 fl id prevHash a) := by
  have hsorted : a.detailOr.Sorted := by
    unfold RecordArgs.detailOr
    cases hd : a.detail with
    | none => exact .obj List.Pairwise.nil (by simp)
    | some items => exact a.sorted items hd
  exact ⟨rfl, a.detailOr, loads_dumps fl .spaced hsorted, rfl⟩

inductive Moves (s : AuditDesk F) (i : Nat) (args : RecordArgs F) :
    Ev F → Phase → Phase → List AuditRow → Prop where
  | select : Moves s i args (.select i) .connected (.read (lastHash s.rows) s.rows.length) s.rows
  | insert (prevHash : String) (seen : Nat) : Moves s i args (.insert i) (.read prevHash seen)
      (.inserted (newRow sha256 fl (s.rows.length + 1) prevHash args) seen) s.rows
  | commit (row : AuditRow) (seen : Nat) :
      Moves s i args (.commit i) (.inserted row seen) .recorded (s.rows ++ [row])
  | fail {phase : Phase} (h : phase.isRecorded = false) :
      Moves s i args (.fail i) phase .raised s.rows

theorem step_cases {s s' : AuditDesk F} {ev : Ev F} (h : step sha256 fl s ev = some s') :
    (∃ args, ev = .connect args ∧ s' = { s with calls := s.calls ++ [⟨args, .connected⟩] }) ∨
      ∃ i args phase phase' rows', s.calls[i]? = some ⟨args, phase⟩ ∧
        Moves sha256 fl s i args ev phase phase' rows' ∧
        s' = ⟨rows', s.calls.set i ⟨args, phase'⟩⟩ := by
  cases ev with
  | connect args => exact .inl ⟨args, rfl, (Option.some.inj h).symm⟩
  | select i =>
    simp only [step] at h
    split at h
    · rename_i args hc
      exact .inr ⟨i, args, _, _, _, hc, .select, (Option.some.inj h).symm⟩
    · cases h
  | insert i =>
    simp only [step] at h
    split at h
    · rename_i args prevHash seen hc
      split at h
      · cases h
      · exact .inr ⟨i, args, _, _, _, hc, .insert prevHash seen, (Option.some.inj h).symm⟩
    · cases h
  | commit i =>
    simp only [step] at h
    split at h
    · rename_i args row seen hc
      exact .inr ⟨i, args, _, _, _, hc, .commit row seen, (Option.some.inj h).symm⟩
    · cases h
  | fail i =>
    simp only [step] at h
    split at h
    · cases h
    · cases h
    · cases h
    · rename_i args phase hrec hraised hc
      refine .inr ⟨i, args, _, _, _, hc, .fail ?_, (Option.some.inj h).symm⟩
      cases phase with
      | recorded => exact absurd rfl hrec
      | _ => rfl

theorem Moves.rows_eq {s : AuditDesk F} {i : Nat} {args : RecordArgs F} {ev : Ev F}
    {phase phase' : Phase} {rows' : List AuditRow}
    (h : Moves sha256 fl s i args ev phase phase' rows') : ∃ extra, rows' = s.rows ++ extra := by
  cases h with
  | commit row seen => exact ⟨[row], rfl⟩
  | _ => exact ⟨[], (List.append_nil _).symm⟩

theorem seen_append {rows : List AuditRow} (extra : List AuditRow) {seen : Nat} {prevHash : String}
    (h : seen ≤ rows.length ∧ prevHash = lastHash (rows.take seen)) :
    seen ≤ (rows ++ extra).length ∧ prevHash = lastHash ((rows ++ extra).take seen) := by
  rw [List.take_append_of_le_length h.1, List.length_append]
  exact ⟨Nat.le_add_right_of_le h.1, h.2⟩

theorem step_sound {s s' : AuditDesk F} {ev : Ev F} (hs : Sound sha256 fl s)
    (h : step sha256 fl s ev = some s') : Sound sha256 fl s' := by
  rcases step_cases sha256 fl h with ⟨args, -, rfl⟩ | ⟨i, args, phase, phase', rows', hc, hm, rfl⟩
  · refine ⟨?_, ?_, ?_⟩
    · intro c hmem prevHash seen hphase
      rcases List.mem_append.mp hmem with hmem | hmem
      · exact hs.read c hmem prevHash seen hphase
      · rw [List.mem_singleton.mp hmem] at hphase
        cases hphase
    · intro c hmem row seen hphase
      rcases List.mem_append.mp hmem with hmem | hmem
      · exact hs.inserted c hmem row seen hphase
      · rw [List.mem_singleton.mp hmem] at hphase
        cases hphase
    · simpa [AuditDesk.recorded, Phase.isRecorded] using hs.recorded
  · have hcall := List.mem_of_getElem? hc
    obtain ⟨extra, hrows⟩ := hm.rows_eq
    refine ⟨?_, ?_, ?_⟩
    · intro c hmem prevHash seen hphase
      rcases List.mem_or_eq_of_mem_set hmem with hmem | rfl
      · rw [hrows]
        exact seen_append extra (hs.read c hmem prevHash seen hphase)
      · simp only at hphase
        subst hphase
        cases hm
        exact ⟨Nat.le_refl _, by rw [List.take_length]⟩
    · intro c hmem row seen hphase
      rcases List.mem_or_eq_of_mem_set hmem with hmem | rfl
      · obtain ⟨hle, hprev, hfollows⟩ := hs.inserted c hmem row seen hphase
        have hseen := seen_append extra ⟨hle, hprev⟩
        rw [hrows]
        exact ⟨hseen.1, hseen.2, hfollows⟩
      · simp only at hphase
        subst hphase
        cases hm with
        | insert prevHash seen =>
          obtain ⟨hle, hprev⟩ := hs.read _ hcall prevHash seen rfl
          exact ⟨hle, hprev, newRow_follows sha256 fl _ _ _⟩
    · have hcount := Count.countP_set_add (p := fun c : Call F => c.phase.isRecorded)
        (b := ⟨args, phase'⟩) hc
      have hrec := hs.recorded
      unfold AuditDesk.recorded at hrec ⊢
      rw [hrec] at hcount
      cases hm with
      | select => exact hcount
      | insert prevHash seen => exact hcount
      | commit row seen =>
        rw [List.length_append, List.length_singleton]
        exact hcount
      | fail hphase =>
        simp only [hphase, Bool.false_eq_true, if_false] at hcount
        exact hcount

theorem init_sound : Sound sha256 fl (init : AuditDesk F) := ⟨by simp [init], by simp [init], rfl⟩

/-- The rows are linked. -/
def Intact (s : AuditDesk F) : Prop := AuditLog.Linked sha256 fl genesisHash s.rows

theorem verify_eq_iff {s : AuditDesk F} (hs : Sound sha256 fl s) :
    AuditLog.verify sha256 fl s.rows = some ⟨true, s.recorded, none⟩ ↔ Intact sha256 fl s := by
  constructor
  · intro h
    exact (AuditLog.verified_iff sha256 fl).mp ⟨_, h, rfl⟩
  · intro h
    rw [AuditLog.verify, AuditLog.verifyFrom_count sha256 fl h, Nat.zero_add, hs.recorded]

/-- A fresh commit keeps the rows linked. -/
theorem step_intact {s s' : AuditDesk F} {ev : Ev F} (hs : Sound sha256 fl s)
    (hi : Intact sha256 fl s) (hf : s.Fresh ev) (h : step sha256 fl s ev = some s') :
    Intact sha256 fl s' := by
  rcases step_cases sha256 fl h with ⟨args, -, rfl⟩ | ⟨i, args, phase, phase', rows', hc, hm, rfl⟩
  · exact hi
  · cases hm with
    | commit row seen =>
      obtain ⟨-, hprev, hfollows⟩ := hs.inserted _ (List.mem_of_getElem? hc) row seen rfl
      have hseen : seen = s.rows.length := hf _ hc seen rfl
      rw [hseen, List.take_length] at hprev
      rw [hprev] at hfollows
      exact (AuditLog.linked_concat sha256 fl).mpr ⟨hi, hfollows⟩
    | _ => exact hi

/-- A commit that is not fresh breaks the link, unless two different tables end in the same hash. -/
theorem step_fresh {s s' : AuditDesk F} {ev : Ev F} (hs : Sound sha256 fl s)
    (hg : AuditLog.HashOn sha256 (AuditLog.hashed sha256 fl s.rows))
    (hi : Intact sha256 fl s') (h : step sha256 fl s ev = some s') : s.Fresh ev := by
  rcases step_cases sha256 fl h with ⟨args, rfl, -⟩ | ⟨i, args, phase, phase', rows', hc, hm, rfl⟩
  · trivial
  · cases hm with
    | commit row seen =>
      intro c hmem seen' hseen'
      rw [hc, Option.mem_some_iff] at hmem
      subst hmem
      cases hseen'
      obtain ⟨hle, hprev, -⟩ := hs.inserted _ (List.mem_of_getElem? hc) row seen rfl
      obtain ⟨hrows, hfollows⟩ := (AuditLog.linked_concat sha256 fl).mp hi
      have hsplit := List.take_append_drop seen s.rows
      have hseen : AuditLog.Linked sha256 fl genesisHash (s.rows.take seen) := by
        rw [← hsplit] at hrows
        exact ((AuditLog.linked_append sha256 fl).mp hrows).1
      have hsub : AuditLog.hashed sha256 fl
          (s.rows.take seen) ⊆ AuditLog.hashed sha256 fl s.rows := by
        have happend := AuditLog.hashedFrom_append sha256 fl (s.rows.drop seen) hseen
        rw [hsplit] at happend
        unfold AuditLog.hashed
        rw [happend]
        exact List.subset_append_left ..
      have hend : lastHash (s.rows.take seen) = lastHash s.rows := hprev.symm.trans hfollows.1
      have hmap := AuditLog.linked_determines sha256 fl hg hseen hrows hsub
          (List.Subset.refl _) hend
      have hlen := congrArg List.length hmap
      rw [List.length_map, List.length_map, List.length_take] at hlen
      omega
    | _ => trivial

theorem run_rows {s t : AuditDesk F} {ls : List (Ev F)} (h : Run (step sha256 fl) s ls t) :
    ∃ extra, t.rows = s.rows ++ extra := by
  induction h with
  | refl => exact ⟨[], (List.append_nil _).symm⟩
  | cons hst _ ih =>
    obtain ⟨extra, hextra⟩ := ih
    rcases step_cases sha256 fl hst with ⟨args, -, rfl⟩ | ⟨i, args, phase, phase',
        rows', -, hm, rfl⟩
    · exact ⟨extra, hextra⟩
    · obtain ⟨first, hfirst⟩ := hm.rows_eq
      refine ⟨first ++ extra, ?_⟩
      rw [hextra, hfirst, List.append_assoc]

theorem run_fresh {s t : AuditDesk F} {ls : List (Ev F)} (h : Run (step sha256 fl) s ls t)
    (hs : Sound sha256 fl s) (hi : Intact sha256 fl t)
    (hg : AuditLog.HashOn sha256 (AuditLog.hashed sha256 fl t.rows)) :
    Guarded (step sha256 fl) Fresh s ls := by
  induction h with
  | refl => trivial
  | @cons s s' t l ls hst hrun ih =>
    have hkeep : ∀ r : AuditDesk F, (∃ extra, t.rows = r.rows ++ extra) → Intact sha256 fl r ∧
        AuditLog.hashed sha256 fl r.rows ⊆ AuditLog.hashed sha256 fl t.rows := by
      rintro r ⟨extra, hextra⟩
      unfold Intact at hi
      rw [hextra] at hi
      have hlinked := ((AuditLog.linked_append sha256 fl).mp hi).1
      refine ⟨hlinked, ?_⟩
      unfold AuditLog.hashed
      rw [hextra, AuditLog.hashedFrom_append sha256 fl extra hlinked]
      exact List.subset_append_left ..
    have hsub := (hkeep s (run_rows sha256 fl (.cons hst hrun))).2
    have hintact := (hkeep s' (run_rows sha256 fl hrun)).1
    refine ⟨step_fresh sha256 fl hs (hg.mono _ hsub) hintact hst, ?_⟩
    intro s'' hst'
    rw [hst] at hst'
    cases hst'
    exact ih (step_sound sha256 fl hs hst) hi hg

/-- **The chain survives concurrent writers exactly when none of them reads before another
commits.** After any interleaving of `record` calls, `verify` returns ok with the number of recorded
events if every call commits with nothing committed since it read the last hash; and if the hash
does not collide on what is hashed, only then. -/
theorem record_verifies_iff {t : AuditDesk F} {ls : List (Ev F)}
    (h : Run (step sha256 fl) init ls t) :
    (Guarded (step sha256 fl) Fresh init ls →
      AuditLog.verify sha256 fl t.rows = some ⟨true, t.recorded, none⟩) ∧
      (AuditLog.HashOn sha256 (AuditLog.hashed sha256 fl t.rows) →
        AuditLog.verify sha256 fl t.rows = some ⟨true, t.recorded, none⟩ →
          Guarded (step sha256 fl) Fresh init ls) := by
  have hsound : Sound sha256 fl t :=
    h.invariant (fun _ _ _ hs hst => step_sound sha256 fl hs hst) (init_sound sha256 fl)
  constructor
  · intro hg
    have hintact := h.invariant_of_guarded (P := fun s => Sound sha256 fl s ∧ Intact sha256 fl s)
      (fun _ _ _ hs hf hst =>
        ⟨step_sound sha256 fl hs.1 hst, step_intact sha256 fl hs.1 hs.2 hf hst⟩)
      hg ⟨init_sound sha256 fl, trivial⟩
    exact (verify_eq_iff sha256 fl hsound).mpr hintact.2
  · intro hhash hok
    exact run_fresh sha256 fl h (init_sound sha256 fl)
      ((verify_eq_iff sha256 fl hsound).mp hok) hhash

instance (s : AuditDesk F) : (ev : Ev F) → Decidable (s.Fresh ev)
  | .commit i => inferInstanceAs
      (Decidable (∀ c ∈ s.calls[i]?, ∀ seen ∈ c.phase.seen?, seen = s.rows.length))
  | .connect _ | .select _ | .insert _ | .fail _ => .isTrue trivial

/-- The two events of `AuditLog.keyRows`. -/
def createKey : RecordArgs F where
  ts := "2026-01-01T00:00:00+00:00"
  actor := "cli"
  action := "key.create"
  target := some "key-1"
  detail := some [(.ofString "label", .str (.ofString "a"))]
  sorted := by
    rintro items ⟨⟩
    exact .obj (List.pairwise_singleton ..) (by simpa using .str _)

def revokeKey : RecordArgs F where
  ts := "2026-01-01T00:00:01+00:00"
  actor := "cli"
  action := "key.revoke"
  target := some "key-1"
  detail := none
  sorted := by simp

/-- Two calls after each other, while a third one reads and is then locked out. -/
def oneAfterTheOther : List (Ev F) :=
  [.connect createKey, .select 0, .insert 0, .commit 0, .connect revokeKey, .connect createKey,
    .select 2, .select 1, .insert 1, .fail 2, .commit 1]

def oneAfterTheOtherEnd : AuditDesk ExactFloat :=
  (exec (step AuditLog.keySha256 Floats.exact) init oneAfterTheOther).get (by decide +kernel)

theorem record_verifies_iff_oneAfterTheOther :
    Run (step AuditLog.keySha256 Floats.exact) init oneAfterTheOther oneAfterTheOtherEnd ∧
      oneAfterTheOtherEnd.recorded = 2 ∧
      AuditLog.verify AuditLog.keySha256 Floats.exact oneAfterTheOtherEnd.rows =
        some ⟨true, oneAfterTheOtherEnd.recorded, none⟩ := by
  have hrun : Run (step AuditLog.keySha256 Floats.exact) init oneAfterTheOther oneAfterTheOtherEnd :=
    run_of_exec (by simp [oneAfterTheOtherEnd])
  exact ⟨hrun, by decide +kernel, (record_verifies_iff _ _ hrun).1 (by decide +kernel)⟩

/-- Both calls read before either of them commits. -/
def readTogether : List (Ev F) :=
  [.connect createKey, .connect revokeKey, .select 0, .select 1, .insert 0, .commit 0, .insert 1,
    .commit 1]

def readTogetherEnd : AuditDesk ExactFloat :=
  (exec (step AuditLog.keySha256 Floats.exact) init readTogether).get (by decide +kernel)

/-- Both events are recorded, and `verify` reports the second one. -/
theorem readTogether_forks :
    Run (step AuditLog.keySha256 Floats.exact) init readTogether readTogetherEnd ∧
      readTogetherEnd.recorded = 2 ∧
      AuditLog.verify AuditLog.keySha256 Floats.exact readTogetherEnd.rows =
        some ⟨false, 2, some 2⟩ :=
  ⟨run_of_exec (by simp [readTogetherEnd]), by decide +kernel, by decide +kernel⟩

end AuditDesk
end InferenceEngine
