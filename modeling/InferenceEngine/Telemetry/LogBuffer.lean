import Mathlib.Data.List.Sort
import InferenceEngine.Lib.Run

/-!
# Telemetry.LogBuffer

The log collector: a ring of records in memory and the `log_events` table, which is trimmed after
every fiftieth row that a process has counted. The count is the process's own; the table outlives
it.

* `recent`: the rows of the table are the last ones written, in every run.
* `bounded`: and no more than `max_rows + 50`, if the count is never lost over more than `max_rows +
  1` rows.
* `overflow`: when it is, 49 writes lead past the bound.
-/

namespace InferenceEngine
namespace LogBuffer

open Lts

variable {ρ : Type}

structure Settings where
  /-- `db_path is not None`. -/
  hasDb : Bool := true
  ringSize : Nat := 500
  dbLevel : Nat := 30
  maxRows : Nat := 2000

structure Record (ρ : Type) where
  levelno : Nat
  payload : ρ

structure Collector (ρ : Type) where
  ring : List ρ
  sinceTrim : Nat
  persist : Bool

/-- `LogCollector.__init__`. -/
def Collector.init : Collector ρ := ⟨[], 0, true⟩

structure Table (ρ : Type) where
  rows : List (Nat × ρ)
  lastId : Nat

def Table.insert (t : Table ρ) (row : ρ) : Table ρ :=
  ⟨t.rows ++ [(t.lastId + 1, row)], t.lastId + 1⟩

/-- `DELETE .. WHERE id NOT IN (SELECT id .. ORDER BY id DESC LIMIT ?)`. -/
def Table.trim (maxRows : Nat) (t : Table ρ) : Table ρ :=
  let kept := ((t.rows.map Prod.fst).mergeSort fun a b => decide (b ≤ a)).take maxRows
  { t with rows := t.rows.filter fun row => row.1 ∈ kept }

/-- How a write ends: as a whole, or at the statement that raises. -/
inductive Write where
  | done
  | connectFails
  | insertFails
  | trimFails
  | commitFails
  deriving DecidableEq

structure St (ρ : Type) where
  proc : Collector ρ
  table : Table ρ
  written : List ρ

inductive Event (ρ : Type) where
  | emit (record : Record ρ) (write : Write)
  | setPersist (on : Bool)
  /-- The process ends, however it ends, and a new one begins. -/
  | restart

variable (cfg : Settings)

/-- `_write_row`. What the transaction does is rolled back when a statement raises; the count is
not. -/
def writeRow (row : ρ) (write : Write) (s : St ρ) : St ρ :=
  let counted := s.proc.sinceTrim + 1
  match write with
  | .connectFails => s
  | .insertFails => s
  | .trimFails =>
    -- without a trim there is nothing to fail
    if 50 ≤ counted then { s with proc := { s.proc with sinceTrim := 0 } }
    else ⟨{ s.proc with sinceTrim := counted }, s.table.insert row, s.written ++ [row]⟩
  | .commitFails =>
    { s with proc := { s.proc with sinceTrim := if 50 ≤ counted then 0 else counted } }
  | .done =>
    if 50 ≤ counted then
      ⟨{ s.proc with sinceTrim := 0 }, (s.table.insert row).trim cfg.maxRows, s.written ++ [row]⟩
    else ⟨{ s.proc with sinceTrim := counted }, s.table.insert row, s.written ++ [row]⟩

/-- Is the record written to the table? -/
def persists (s : St ρ) (record : Record ρ) : Bool :=
  s.proc.persist && decide (cfg.dbLevel ≤ record.levelno) && cfg.hasDb

/-- `deque.append` with a `maxlen`. -/
def append (maxlen : Nat) (ring : List ρ) (payload : ρ) : List ρ :=
  (ring ++ [payload]).drop (ring.length + 1 - maxlen)

/-- `emit`. -/
def emit (record : Record ρ) (write : Write) (s : St ρ) : St ρ :=
  let s := { s with proc := { s.proc with ring := append cfg.ringSize s.proc.ring record.payload } }
  if persists cfg s record then writeRow cfg record.payload write s else s

def step (s : St ρ) : Event ρ → Option (St ρ)
  | .emit record write => some (emit cfg record write s)
  | .setPersist on => some { s with proc := { s.proc with persist := on } }
  | .restart => some { s with proc := Collector.init }

def init : St ρ := ⟨Collector.init, ⟨[], 0⟩, []⟩

section Trim

/-- The largest of ids that rise are the last. -/
theorem mergeSort_ids {ids : List Nat} (h : ids.Pairwise (· < ·)) :
    (ids.mergeSort fun a b => decide (b ≤ a)) = ids.reverse := by
  have hsorted : (ids.mergeSort fun a b => decide (b ≤ a)).Pairwise (· ≥ ·) :=
    List.pairwise_mergeSort' (· ≥ ·) ids
  have hrev : ids.reverse.Pairwise (· ≥ ·) := List.pairwise_reverse.mpr (h.imp Nat.le_of_lt)
  exact ((List.mergeSort_perm ids _).trans ids.reverse_perm.symm).eq_of_pairwise' hsorted hrev

theorem filter_last {l : List (Nat × ρ)} (h : (l.map Prod.fst).Pairwise (· < ·)) (n : Nat) :
    (l.filter fun row => row.1 ∈ (l.map Prod.fst).drop n) = l.drop n := by
  rw [← List.take_append_drop n l, List.map_append, List.pairwise_append] at h
  obtain ⟨-, -, hlt⟩ := h
  conv_lhs => rw [← List.take_append_drop n l]
  rw [List.filter_append, List.take_append_drop, ← List.map_drop]
  have hold : ((l.take n).filter fun row => row.1 ∈ (l.drop n).map Prod.fst) = [] := by
    rw [List.filter_eq_nil_iff]
    intro row hrow hmem
    exact Nat.lt_irrefl _ (hlt row.1 (List.mem_map_of_mem hrow) row.1 (of_decide_eq_true hmem))
  have hnew : ((l.drop n).filter fun row => row.1 ∈ (l.drop n).map Prod.fst) = l.drop n := by
    rw [List.filter_eq_self]
    intro row hrow
    exact decide_eq_true (List.mem_map_of_mem hrow)
  rw [hold, hnew, List.nil_append]

theorem Table.trim_rows {t : Table ρ} (h : (t.rows.map Prod.fst).Pairwise (· < ·)) (maxRows : Nat) :
    (t.trim maxRows).rows = t.rows.drop (t.rows.length - maxRows) := by
  have hkept : ((t.rows.map Prod.fst).mergeSort fun a b => decide (b ≤ a)).take maxRows =
      ((t.rows.map Prod.fst).drop (t.rows.length - maxRows)).reverse := by
    rw [mergeSort_ids h, List.take_reverse, List.length_map]
  simp only [Table.trim, hkept, List.mem_reverse]
  exact filter_last h _

end Trim

section Steps

/-- The process forgets how many rows it has written since it trimmed the table. -/
def losesCount (s : St ρ) : Event ρ → Bool
  | .emit record write =>
    persists cfg s record && decide (50 ≤ s.proc.sinceTrim + 1) &&
      (write == .trimFails || write == .commitFails)
  | .setPersist _ => false
  | .restart => true

inductive Effect (s s' : St ρ) (lost : Bool) : Prop where
  | same (htable : s'.table = s.table) (hwritten : s'.written = s.written)
      (hlow : s.proc.sinceTrim ≤ s'.proc.sinceTrim)
      (hhigh : s'.proc.sinceTrim ≤ max s.proc.sinceTrim 49)
  | forgot (hlost : lost = true) (htable : s'.table = s.table) (hwritten : s'.written = s.written)
      (hcount : s'.proc.sinceTrim = 0)
  | inserted (row : ρ) (htable : s'.table = s.table.insert row)
      (hwritten : s'.written = s.written ++ [row]) (hcount : s'.proc.sinceTrim =
        s.proc.sinceTrim + 1)
      (hlow : s'.proc.sinceTrim < 50)
  | trimmed (row : ρ) (htable : s'.table = (s.table.insert row).trim cfg.maxRows)
      (hwritten : s'.written = s.written ++ [row]) (hcount : s'.proc.sinceTrim = 0)

theorem effect_of_writeRow (row : ρ) (write : Write) (s : St ρ) :
    Effect cfg s (writeRow cfg row write s)
      (decide (50 ≤ s.proc.sinceTrim + 1) && (write == .trimFails || write == .commitFails)) := by
  by_cases hfull : 50 ≤ s.proc.sinceTrim + 1
  · cases write with
    | connectFails => exact .same rfl rfl (Nat.le_refl _) (Nat.le_max_left ..)
    | insertFails => exact .same rfl rfl (Nat.le_refl _) (Nat.le_max_left ..)
    | trimFails =>
      rw [show writeRow cfg row .trimFails s =
        { s with proc := { s.proc with sinceTrim := 0 } } from if_pos hfull]
      exact .forgot (by simp [hfull]) rfl rfl rfl
    | commitFails => exact .forgot (by simp [hfull]) rfl rfl (if_pos hfull)
    | done =>
      rw [show writeRow cfg row .done s = ⟨{ s.proc with sinceTrim := 0 },
        (s.table.insert row).trim cfg.maxRows, s.written ++ [row]⟩ from if_pos hfull]
      exact .trimmed row rfl rfl rfl
  · have hcount : s.proc.sinceTrim + 1 ≤ 49 := by omega
    have hinserted : Effect cfg s ⟨{ s.proc with sinceTrim := s.proc.sinceTrim + 1 },
        s.table.insert row, s.written ++ [row]⟩
        (decide (50 ≤ s.proc.sinceTrim + 1) && (write == .trimFails || write == .commitFails)) :=
      .inserted row rfl rfl rfl (Nat.lt_succ_of_le hcount)
    cases write with
    | connectFails => exact .same rfl rfl (Nat.le_refl _) (Nat.le_max_left ..)
    | insertFails => exact .same rfl rfl (Nat.le_refl _) (Nat.le_max_left ..)
    | trimFails => simpa only [writeRow, hfull, if_false] using hinserted
    | commitFails =>
      have hsince : (writeRow cfg row .commitFails s).proc.sinceTrim = s.proc.sinceTrim + 1 :=
        if_neg hfull
      exact .same rfl rfl (by omega) (by omega)
    | done => simpa only [writeRow, hfull, if_false] using hinserted

theorem effect_of_step {s s' : St ρ} {e : Event ρ} (h : step cfg s e = some s') :
    Effect cfg s s' (losesCount cfg s e) := by
  cases e with
  | setPersist on =>
    obtain rfl := Option.some.inj h
    exact .same rfl rfl (Nat.le_refl _) (Nat.le_max_left ..)
  | restart =>
    obtain rfl := Option.some.inj h
    exact .forgot rfl rfl rfl rfl
  | emit record write =>
    obtain rfl := Option.some.inj h
    -- the ring is the process's alone
    let s₁ : St ρ :=
      { s with proc := { s.proc with ring := append cfg.ringSize s.proc.ring record.payload } }
    have hpersists : persists cfg s₁ record = persists cfg s record := rfl
    cases hp : persists cfg s record with
    | false =>
      have hemit : emit cfg record write s = s₁ := by simp [emit, hpersists, hp, s₁]
      rw [hemit]
      exact .same rfl rfl (Nat.le_refl _) (Nat.le_max_left ..)
    | true =>
      have hemit : emit cfg record write s = writeRow cfg record.payload write s₁ := by
        simp [emit, hpersists, hp, s₁]
      rw [hemit]
      have heffect := effect_of_writeRow cfg record.payload write s₁
      simp only [losesCount, hp, Bool.true_and]
      cases heffect with
      | same htable hwritten hlow hhigh => exact .same htable hwritten hlow hhigh
      | forgot hlost htable hwritten hcount => exact .forgot hlost htable hwritten hcount
      | inserted row htable hwritten hcount hlow => exact .inserted row htable hwritten hcount hlow
      | trimmed row htable hwritten hcount => exact .trimmed row htable hwritten hcount

end Steps

section Rows

/-- The ids rise, and the rows are the last that were written. -/
structure Recent (s : St ρ) : Prop where
  ids : (s.table.rows.map Prod.fst).Pairwise (· < ·)
  fresh : ∀ row ∈ s.table.rows, row.1 ≤ s.table.lastId
  suffix : s.table.rows.map Prod.snd <:+ s.written

theorem insert_rows (t : Table ρ) (row : ρ) :
    (t.insert row).rows = t.rows ++ [(t.lastId + 1, row)] := rfl

theorem insert_ids {t : Table ρ} (hids : (t.rows.map Prod.fst).Pairwise (· < ·))
    (hfresh : ∀ row ∈ t.rows, row.1 ≤ t.lastId) (row : ρ) :
    ((t.insert row).rows.map Prod.fst).Pairwise (· < ·) := by
  rw [insert_rows, List.map_append, List.pairwise_append]
  refine ⟨hids, List.pairwise_singleton .., ?_⟩
  intro id hid new hnew
  obtain ⟨old, hold, rfl⟩ := List.mem_map.mp hid
  obtain rfl := List.mem_singleton.mp hnew
  exact Nat.lt_succ_of_le (hfresh old hold)

theorem insert_fresh {t : Table ρ} (hfresh : ∀ row ∈ t.rows, row.1 ≤ t.lastId) (row : ρ) :
    ∀ r ∈ (t.insert row).rows, r.1 ≤ (t.insert row).lastId := by
  intro r hr
  rcases List.mem_append.mp hr with hold | hnew
  · exact Nat.le_succ_of_le (hfresh r hold)
  · obtain rfl := List.mem_singleton.mp hnew
    exact Nat.le_refl _

theorem Recent.step {s s' : St ρ} {e : Event ρ} (hs : Recent s) (h : step cfg s e = some s') :
    Recent s' := by
  cases effect_of_step cfg h with
  | same htable hwritten =>
    exact ⟨htable ▸ hs.ids, htable ▸ hs.fresh, by rw [htable, hwritten]; exact hs.suffix⟩
  | forgot _ htable hwritten =>
    exact ⟨htable ▸ hs.ids, htable ▸ hs.fresh, by rw [htable, hwritten]; exact hs.suffix⟩
  | inserted row htable hwritten =>
    refine ⟨htable ▸ insert_ids hs.ids hs.fresh row, htable ▸ insert_fresh hs.fresh row, ?_⟩
    rw [htable, hwritten, insert_rows, List.map_append]
    exact List.suffix_append_self_iff.mpr hs.suffix
  | trimmed row htable hwritten =>
    have hids := insert_ids hs.ids hs.fresh row
    have hrows := Table.trim_rows hids cfg.maxRows
    refine ⟨?_, ?_, ?_⟩
    · rw [htable, hrows, List.map_drop]
      exact hids.drop
    · rw [htable, hrows]
      exact fun r hr => insert_fresh hs.fresh row r (List.mem_of_mem_drop hr)
    · rw [htable, hrows, hwritten, List.map_drop, insert_rows, List.map_append]
      exact (List.drop_suffix ..).trans (List.suffix_append_self_iff.mpr hs.suffix)

theorem recent_init : Recent (init : St ρ) :=
  ⟨List.Pairwise.nil, fun _ h => absurd h (List.not_mem_nil), List.suffix_refl _⟩

theorem recent {ls : List (Event ρ)} {t : St ρ} (h : Run (step cfg) init ls t) :
    t.table.rows.map Prod.snd <:+ t.written :=
  (h.invariant (fun _ _ _ hs hst => hs.step cfg hst) recent_init).suffix

end Rows

section Bound

/-- The count is forgotten only over a table that is trimmed, or one row above it. -/
def CountKept (s : St ρ) (e : Event ρ) : Prop :=
  losesCount cfg s e = true → s.table.rows.length ≤ cfg.maxRows + 1

instance (s : St ρ) (e : Event ρ) : Decidable (CountKept cfg s e) :=
  inferInstanceAs (Decidable (_ → _))

/-- The rows above the cap have been counted, but for one. -/
structure Counted (s : St ρ) : Prop where
  rows : s.table.rows.length ≤ cfg.maxRows + 1 + s.proc.sinceTrim
  since : s.proc.sinceTrim ≤ 49

theorem Counted.step {s s' : St ρ} {e : Event ρ} (hr : Recent s) (hs : Counted cfg s)
    (hkept : CountKept cfg s e) (h : step cfg s e = some s') : Counted cfg s' := by
  obtain ⟨hrows, hsince⟩ := hs
  cases effect_of_step cfg h with
  | same htable _ hlow hhigh => exact ⟨by rw [htable]; omega, by omega⟩
  | forgot hlost htable _ hcount =>
    have hfew := hkept hlost
    exact ⟨by rw [htable]; omega, by omega⟩
  | inserted row htable _ hcount hlow =>
    refine ⟨?_, by omega⟩
    rw [htable, insert_rows, List.length_append, List.length_singleton]
    omega
  | trimmed row htable _ hcount =>
    refine ⟨?_, by omega⟩
    rw [htable, Table.trim_rows (insert_ids hr.ids hr.fresh row), List.length_drop]
    omega

/-- If the count is kept, the table holds no more than `max_rows + 50` rows and they are the last
written, in every state of the run. -/
theorem bounded (ls : List (Event ρ)) (hkept : Guarded (step cfg) (CountKept cfg) init ls) :
    Always (step cfg) (fun s => s.table.rows.length ≤ cfg.maxRows + 50 ∧
      s.table.rows.map Prod.snd <:+ s.written) init ls := by
  refine hkept.always (I := fun s => Recent s ∧ Counted cfg s) ?_ ?_
    ⟨recent_init, Nat.zero_le _, Nat.zero_le _⟩
  · rintro s e s' ⟨hr, hs⟩ hok hst
    exact ⟨hr.step cfg hst, hs.step cfg hr hok hst⟩
  · rintro s ⟨hr, hrows, hsince⟩
    exact ⟨by omega, hr.suffix⟩

/-- Two processes: the first ends when the table holds as many rows as it may. -/
theorem bounded_two_processes :
    Always (step ⟨true, 1, 30, 2⟩) (fun s => s.table.rows.length ≤ 2 + 50 ∧
      s.table.rows.map Prod.snd <:+ s.written) init
      [.emit ⟨30, "a"⟩ .done, .emit ⟨20, "quiet"⟩ .done, .emit ⟨40, "b"⟩ .done, .restart,
        .emit ⟨30, "lost"⟩ .insertFails, .emit ⟨30, "c"⟩ .done] :=
  bounded ⟨true, 1, 30, 2⟩ _ (by decide)

/-- A row that reaches the table. -/
def write (row : ρ) : Event ρ := .emit ⟨cfg.dbLevel, row⟩ .done

theorem step_write (hdb : cfg.hasDb = true) {s : St ρ} (hpersist : s.proc.persist = true)
    (hroom : s.proc.sinceTrim + 1 ≤ 49) (row : ρ) :
    ∃ s', step cfg s (write cfg row) = some s' ∧ s'.proc.persist = true ∧
      s'.proc.sinceTrim = s.proc.sinceTrim + 1 ∧ s'.table = s.table.insert row := by
  have hfull : ¬ 50 ≤ s.proc.sinceTrim + 1 := by omega
  refine ⟨_, rfl, ?_, ?_, ?_⟩ <;>
    simp [emit, persists, writeRow, hdb, hpersist, hfull]

theorem run_writes (hdb : cfg.hasDb = true) (row : ρ) (n : Nat) :
    ∀ {s : St ρ}, s.proc.persist = true → s.proc.sinceTrim + n ≤ 49 →
      ∃ t, Run (step cfg) s (List.replicate n (write cfg row)) t ∧ t.proc.persist = true ∧
        t.table.rows.length = s.table.rows.length + n := by
  induction n with
  | zero => exact fun hpersist _ => ⟨_, .refl, hpersist, rfl⟩
  | succ n ih =>
    intro s hpersist hroom
    obtain ⟨s', hst, hpersist', hsince, htable⟩ := step_write cfg hdb hpersist (by omega) row
    obtain ⟨t, hrun, ht, hrows⟩ := ih hpersist' (by omega)
    refine ⟨t, .cons hst hrun, ht, ?_⟩
    rw [hrows, htable, insert_rows, List.length_append, List.length_singleton]
    omega

/-- A step that forgets the count over a larger table leads past the bound: 49 writes do. -/
theorem overflow (hdb : cfg.hasDb = true) {s s' : St ρ} {e : Event ρ} (hlost : ¬ CountKept cfg s e)
    (h : step cfg s e = some s') (row : ρ) :
    ∃ t, Run (step cfg) s' (.setPersist true :: List.replicate 49 (write cfg row)) t ∧
      cfg.maxRows + 50 < t.table.rows.length := by
  obtain ⟨hloses, hmany⟩ := Classical.not_imp.mp hlost
  have hforgot : s'.table = s.table ∧ s'.proc.sinceTrim = 0 := by
    cases e with
    | setPersist on => cases hloses
    | restart =>
      obtain rfl := Option.some.inj h
      exact ⟨rfl, rfl⟩
    | emit record w =>
      obtain rfl := Option.some.inj h
      simp only [losesCount, Bool.and_eq_true, Bool.or_eq_true, beq_iff_eq,
        decide_eq_true_eq] at hloses
      obtain ⟨⟨hp, hfull⟩, hw⟩ := hloses
      rcases hw with rfl | rfl <;> simp_all [emit, persists, writeRow]
  obtain ⟨htable, hcount⟩ := hforgot
  obtain ⟨t, hrun, -, hrows⟩ := run_writes cfg hdb row 49
    (s := { s' with proc := { s'.proc with persist := true } }) rfl (by simp [hcount])
  refine ⟨t, .cons rfl hrun, ?_⟩
  rw [hrows, htable]
  omega

/-- A process that writes 49 rows and ends. -/
def round (row : ρ) : List (Event ρ) := List.replicate 49 (write cfg row) ++ [.restart]

theorem run_rounds (hdb : cfg.hasDb = true) (row : ρ) (k : Nat) :
    ∀ {s : St ρ}, s.proc = Collector.init →
      ∃ t, Run (step cfg) s (List.replicate k (round cfg row)).flatten t ∧ t.proc = Collector.init ∧
        t.table.rows.length = s.table.rows.length + 49 * k := by
  induction k with
  | zero => exact fun hs => ⟨_, .refl, hs, rfl⟩
  | succ k ih =>
    intro s hs
    obtain ⟨s₁, hwrites, -, hrows₁⟩ :=
      run_writes cfg hdb row 49 (s := s) (by rw [hs]; rfl) (by rw [hs]; exact Nat.le_refl 49)
    obtain ⟨t, hrest, ht, hrows⟩ := ih (s := { s₁ with proc := Collector.init }) rfl
    rw [List.replicate_succ, List.flatten_cons]
    refine ⟨t, (hwrites.trans (.single rfl)).trans hrest, ht, ?_⟩
    rw [hrows, hrows₁]
    omega

/-- With the default settings, 42 processes of 49 warnings each. -/
theorem overflow_of_restarts :
    ¬ ∀ (ls : List (Event String)) (t : St String), Run (step {}) init ls t →
      t.table.rows.length ≤ ({} : Settings).maxRows + 50 := by
  intro hbound
  obtain ⟨t, hrun, -, hrows⟩ := run_rounds {} rfl "warning" 42 (s := init) rfl
  have hle := hbound _ t hrun
  rw [hrows] at hle
  exact absurd hle (by decide)

end Bound

end LogBuffer
end InferenceEngine
