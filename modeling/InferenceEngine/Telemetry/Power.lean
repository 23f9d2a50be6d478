import Mathlib.Data.String.Basic
import Mathlib.Algebra.BigOperators.Group.List.Basic
import InferenceEngine.Lib.Binary64

/-!
# Telemetry.Power

The power probe: one total over all zones that match `intel-rapl:*`, and watts from what it gained
since the last sample. A zone `intel-rapl:0` is a package; `intel-rapl:0:0` is nested in it, and its
energy is part of the package's.

* `reading_succ`: a reading is fixed by the last two samples.
* `honest_iff_alone`: a history is read as it should be exactly when, wherever the total does not
  fall, no package's counter did, time advanced, and the floats that the gain of the total is
  divided in come out at the power of the packages. Where they are not rounded, that is to say that
  the nested zones gained nothing.
-/

namespace InferenceEngine
namespace Power

abbrev Name := List Char

structure Entry where
  name : Name
  /-- `(entry / "energy_uj").is_file()`. -/
  energy : Bool

/-- What is found under `RAPL_ROOT`; `none` when it is not there or a look at it raises
`OSError`. -/
abbrev Root := Option (List Entry)

structure Sample where
  now : Binary64
  readUj : Name → Option Int

inductive State where
  | measured
  | unavailable
  deriving DecidableEq

structure PowerReading where
  state : State
  watts : Option Binary64 := none
  source : Option String := none
  reason : Option String := none

structure PowerProbe where
  domains : List Name
  lastTotalUj : Option Int
  lastTs : Option Binary64

def raplPrefix : Name := "intel-rapl:".toList

/-- `sorted(RAPL_ROOT.glob("intel-rapl:*"))`. -/
def globbed (entries : List Entry) : List Entry :=
  (entries.filter fun entry => raplPrefix.isPrefixOf entry.name).mergeSort
    fun a b => decide (a.name ≤ b.name)

/-- `_read_rapl_domains`. -/
def readRaplDomains : Root → List Name
  | none => []
  | some entries => ((globbed entries).filter fun entry => entry.energy).map Entry.name

/-- `PowerProbe.__init__`. -/
def PowerProbe.init (root : Root) : PowerProbe := ⟨readRaplDomains root, none, none⟩

/-- The loop of `_read_total`. -/
def addCounters (s : Sample) : Int → List Name → Option Int
  | total, [] => some total
  | total, path :: paths =>
    match s.readUj path with
    | none => none
    | some val => addCounters s (total + val) paths

def readTotal (domains : List Name) (s : Sample) : Option Int :=
  if domains.isEmpty then none else addCounters s 0 domains

def million : Binary64 := .ofRat 1000000

/-- `(delta_uj / 1_000_000.0) / dt` -/
def watts (deltaUj : Int) (dt : Binary64) : Except FloatError Binary64 := do
  let joules ← (← Binary64.ofInt deltaUj).div million
  joules.div dt

/-- `PowerProbe.sample`. -/
def PowerProbe.sample (p : PowerProbe) (s : Sample) : Except FloatError PowerReading × PowerProbe :=
  if p.domains.isEmpty then
    (.ok { state := .unavailable
           reason := some "no RAPL powercap interface (needs Linux Intel/AMD RAPL)" }, p)
  else
    match readTotal p.domains s with
    | none =>
      (.ok { state := .unavailable, reason := some "RAPL energy counter unreadable (permissions?)" },
        { p with lastTotalUj := none, lastTs := none })
    | some current =>
      let p' := { p with lastTotalUj := some current, lastTs := some s.now }
      match p.lastTotalUj, p.lastTs with
      | some lastTotal, some lastTs =>
        let dt := s.now.sub lastTs
        let delta := current - lastTotal
        if dt.nonpos ∨ delta < 0 then
          (.ok { state := .unavailable, source := some "rapl"
                 reason := some "counter wrap; resampling" }, p')
        else
          ((watts delta dt).map fun w =>
            { state := .measured, watts := some w, source := some "rapl" }, p')
      | _, _ =>
        (.ok { state := .unavailable, source := some "rapl"
               reason := some "establishing baseline" }, p')

/-- What a probe reports for one sample after the other. -/
def readings (p : PowerProbe) : List Sample → List (Except FloatError PowerReading)
  | [] => []
  | s :: samples => (p.sample s).1 :: readings (p.sample s).2 samples

section Zones

/-- A zone of its own, not nested in another one. -/
def isPackage (name : Name) : Bool :=
  raplPrefix.isPrefixOf name && !(name.drop raplPrefix.length).contains ':'

def isNested (name : Name) : Bool :=
  raplPrefix.isPrefixOf name && (name.drop raplPrefix.length).contains ':'

/-- The zones of a kind that have a counter. -/
def zones (kind : Name → Bool) : Root → List Name
  | none => []
  | some entries => (entries.filter fun entry => kind entry.name && entry.energy).map Entry.name

def packages : Root → List Name := zones isPackage

def nested : Root → List Name := zones isNested

/-- The counter of a zone, where it can be read. -/
def Sample.uj (s : Sample) (zone : Name) : Int := (s.readUj zone).getD 0

def Sample.total (s : Sample) (names : List Name) : Int := (names.map s.uj).sum

def Readable (names : List Name) (s : Sample) : Prop := ∀ zone ∈ names, (s.readUj zone).isSome

/-- What zones gained between two samples. -/
def gain (names : List Name) (a b : Sample) : Int :=
  (names.map fun zone => b.uj zone - a.uj zone).sum

/-- A reading that is the power of the packages between two samples. -/
structure Honest (root : Root) (a b : Sample) (r : PowerReading) : Prop where
  before : Readable (packages root) a
  after : Readable (packages root) b
  rising : ∀ zone ∈ packages root, a.uj zone ≤ b.uj zone
  power : ∃ ta tb, a.now.value? = some ta ∧ b.now.value? = some tb ∧ ta < tb ∧
    r.watts.bind Binary64.value? = some (gain (packages root) a b / 1000000 / (tb - ta))

theorem domains_perm (root : Root) :
    (readRaplDomains root).Perm (packages root ++ nested root) := by
  cases root with
  | none => exact .refl _
  | some entries =>
    have hsorted := ((List.mergeSort_perm (entries.filter fun e => raplPrefix.isPrefixOf e.name)
      fun a b => decide (a.name ≤ b.name)).filter fun e => e.energy).map Entry.name
    refine hsorted.trans ?_
    have hsplit := List.filter_append_perm
      (fun e : Entry => !(e.name.drop raplPrefix.length).contains ':')
      ((entries.filter fun e => raplPrefix.isPrefixOf e.name).filter fun e => e.energy)
    refine (hsplit.symm.map Entry.name).trans ?_
    simp only [List.map_append, List.filter_filter, packages, nested, zones, isPackage, isNested,
      Bool.not_not]
    simp only [Bool.and_comm, Bool.and_assoc]
    exact .refl _

theorem readable_zones (root : Root) (s : Sample) :
    Readable (readRaplDomains root) s ↔ Readable (packages root ++ nested root) s := by
  simp only [Readable, (domains_perm root).mem_iff]

theorem gain_eq_sub (names : List Name) (a b : Sample) :
    gain names a b = b.total names - a.total names := by
  induction names with
  | nil => rfl
  | cons name names ih =>
    simp only [gain, Sample.total, List.map_cons, List.sum_cons] at ih ⊢
    omega

theorem gain_append (names names' : List Name) (a b : Sample) :
    gain (names ++ names') a b = gain names a b + gain names' a b := by
  rw [gain, List.map_append, List.sum_append]
  rfl

theorem gain_zones (root : Root) (a b : Sample) :
    gain (readRaplDomains root) a b = gain (packages root ++ nested root) a b :=
  ((domains_perm root).map fun zone => b.uj zone - a.uj zone).sum_eq

end Zones

section Readings

theorem addCounters_eq_some {s : Sample} {names : List Name} :
    ∀ {total x : Int},
      addCounters s total names = some x ↔ Readable names s ∧ x = total + s.total names := by
  induction names with
  | nil =>
    intro total x
    simp only [addCounters, Readable, Sample.total, List.not_mem_nil, false_imp_iff, implies_true,
      true_and, List.map_nil, List.sum_nil, Int.add_zero, Option.some.injEq]
    exact eq_comm
  | cons name names ih =>
    intro total x
    cases hread : s.readUj name with
    | none => simp [addCounters, Readable, hread]
    | some val =>
      simp only [addCounters, hread, ih, Readable, Sample.total, Sample.uj, List.forall_mem_cons,
        List.map_cons, List.sum_cons, Option.isSome_some, true_and, Option.getD_some]
      rw [Int.add_assoc]

theorem readTotal_eq_some {names : List Name} {s : Sample} {x : Int} :
    readTotal names s = some x ↔ names ≠ [] ∧ Readable names s ∧ x = s.total names := by
  cases names with
  | nil => simp [readTotal]
  | cons name names =>
    rw [readTotal, if_neg (by simp), addCounters_eq_some, Int.zero_add]
    simp

/-- The probe after a sample: it keeps nothing older. -/
def PowerProbe.after (domains : List Name) (s : Sample) : PowerProbe :=
  ⟨domains, readTotal domains s, (readTotal domains s).map fun _ => s.now⟩

theorem sample_snd {p : PowerProbe} (h : p.domains = [] → p = ⟨[], none, none⟩) (s : Sample) :
    (p.sample s).2 = PowerProbe.after p.domains s := by
  by_cases hnone : p.domains = []
  · rw [h hnone]
    rfl
  · have hsome : p.domains.isEmpty = false := by simpa using hnone
    simp only [PowerProbe.sample, hsome, Bool.false_eq_true, if_false, PowerProbe.after]
    cases readTotal p.domains s with
    | none => rfl
    | some current =>
      cases p.lastTotalUj with
      | none => rfl
      | some lastTotal =>
        cases p.lastTs with
        | none => rfl
        | some lastTs => simp only; split_ifs <;> rfl

theorem sample_init (root : Root) (s : Sample) :
    ((PowerProbe.init root).sample s).2 = PowerProbe.after (readRaplDomains root) s :=
  sample_snd (fun h => by simp only [PowerProbe.init] at h ⊢; rw [h]) s

theorem sample_after (domains : List Name) (a b : Sample) :
    ((PowerProbe.after domains a).sample b).2 = PowerProbe.after domains b :=
  sample_snd (fun h => by simp only [PowerProbe.after] at h ⊢; rw [h]; rfl) b

theorem state_init (root : Root) (s : Sample) :
    ∃ r, ((PowerProbe.init root).sample s).1 = .ok r ∧ r.state = .unavailable := by
  rw [PowerProbe.init, PowerProbe.sample]
  cases readRaplDomains root with
  | nil => exact ⟨_, rfl, rfl⟩
  | cons zone zones =>
    simp only [List.isEmpty_cons, Bool.false_eq_true, if_false]
    cases readTotal (zone :: zones) s <;> exact ⟨_, rfl, rfl⟩

/-- The samples between which a reading is measured. -/
structure Gains (domains : List Name) (a b : Sample) (w : Binary64) : Prop where
  some : domains ≠ []
  before : Readable domains a
  after : Readable domains b
  time : (b.now.sub a.now).nonpos = false
  rising : 0 ≤ gain domains a b
  watts : Power.watts (gain domains a b) (b.now.sub a.now) = .ok w

theorem reading_of_gains {domains : List Name} {a b : Sample} {w : Binary64}
    (h : Gains domains a b w) : ((PowerProbe.after domains a).sample b).1 =
      .ok { state := .measured, watts := .some w, source := .some "rapl" } := by
  have ha : readTotal domains a = .some (a.total domains) :=
    readTotal_eq_some.mpr ⟨h.some, h.before, rfl⟩
  have hb : readTotal domains b = .some (b.total domains) :=
    readTotal_eq_some.mpr ⟨h.some, h.after, rfl⟩
  have hempty : domains.isEmpty = false := by simpa using h.some
  have hgain := gain_eq_sub domains a b
  have hgo : ¬ ((b.now.sub a.now).nonpos = true ∨ b.total domains - a.total domains < 0) := by
    rintro (hdt | hdelta)
    · rw [h.time] at hdt
      cases hdt
    · have := h.rising
      omega
  simp only [PowerProbe.sample, PowerProbe.after, ha, hb, hempty, Option.map_some,
    Bool.false_eq_true, if_false, hgo]
  rw [← hgain, h.watts]
  rfl

theorem gains_of_measured {domains : List Name} {a b : Sample} {r : PowerReading}
    (h : ((PowerProbe.after domains a).sample b).1 = .ok r) (hr : r.state = .measured) :
    ∃ w, Gains domains a b w ∧ r.watts = some w := by
  by_cases hempty : domains = []
  · subst hempty
    cases h
    cases hr
  have hsome : domains.isEmpty = false := by simpa using hempty
  simp only [PowerProbe.sample, PowerProbe.after, hsome, Bool.false_eq_true, if_false] at h
  cases hb : readTotal domains b with
  | none =>
    rw [hb] at h
    cases h
    cases hr
  | some current =>
    cases ha : readTotal domains a with
    | none =>
      rw [ha, hb] at h
      cases h
      cases hr
    | some last =>
      simp only [ha, hb, Option.map_some] at h
      obtain ⟨-, hreadA, rfl⟩ := readTotal_eq_some.mp ha
      obtain ⟨-, hreadB, rfl⟩ := readTotal_eq_some.mp hb
      split_ifs at h with hstop
      · cases h
        cases hr
      · obtain ⟨hdt, hdelta⟩ := not_or.mp hstop
        rw [← gain_eq_sub] at h hdelta
        cases hw : watts (gain domains a b) (b.now.sub a.now) with
        | error e =>
          rw [hw] at h
          cases h
        | ok w =>
          rw [hw] at h
          cases h
          exact ⟨w, ⟨hempty, hreadA, hreadB, by simpa using hdt, by omega, hw⟩, rfl⟩

theorem reading_succ {p : PowerProbe} {domains : List Name}
    (hp : ∀ s, (p.sample s).2 = PowerProbe.after domains s) {samples : List Sample} {i : Nat}
      {a b : Sample} (ha : samples[i]? = some a) (hb : samples[i + 1]? = some b) :
    (readings p samples)[i + 1]? = some ((PowerProbe.after domains a).sample b).1 := by
  induction i generalizing p samples with
  | zero =>
    match samples, ha, hb with
    | s :: s' :: _, ha, hb =>
      obtain rfl := Option.some.inj ha
      obtain rfl := Option.some.inj hb
      simp [readings, hp]
  | succ i ih =>
    cases samples with
    | nil => cases ha
    | cons s samples =>
      rw [readings, List.getElem?_cons_succ, hp]
      exact ih (fun s' => sample_after domains s s') (by simpa using ha) (by simpa using hb)

theorem reading_zero {p : PowerProbe} {samples : List Sample} {r : Except FloatError PowerReading}
    (h : (readings p samples)[0]? = some r) : ∃ s, r = (p.sample s).1 := by
  cases samples with
  | nil => cases h
  | cons s samples => exact ⟨s, (Option.some.inj h).symm⟩

theorem length_readings (samples : List Sample) :
    ∀ p : PowerProbe, (readings p samples).length = samples.length := by
  induction samples with
  | nil => exact fun _ => rfl
  | cons s samples ih => exact fun p => congrArg Nat.succ (ih _)

theorem measured_from {root : Root} {samples : List Sample} {j : Nat} {r : PowerReading}
    (h : (readings (PowerProbe.init root) samples)[j]? = some (.ok r)) (hr : r.state = .measured) :
    ∃ i a b, j = i + 1 ∧ samples[i]? = some a ∧ samples[i + 1]? = some b ∧
      ((PowerProbe.after (readRaplDomains root) a).sample b).1 = .ok r := by
  cases j with
  | zero =>
    obtain ⟨s, hs⟩ := reading_zero h
    obtain ⟨r', hr', hstate⟩ := state_init root s
    rw [← hs] at hr'
    cases hr'
    rw [hstate] at hr
    cases hr
  | succ i =>
    obtain ⟨hlt, -⟩ := List.getElem?_eq_some_iff.mp h
    rw [length_readings] at hlt
    have ha : samples[i]? = some samples[i] := List.getElem?_eq_getElem (by omega)
    have hb : samples[i + 1]? = some samples[i + 1] := List.getElem?_eq_getElem hlt
    rw [reading_succ (sample_init root) ha hb] at h
    exact ⟨i, _, _, rfl, ha, hb, Option.some.inj h⟩

end Readings

section Honesty

/-- What the probe asks for before it reports a measured reading. -/
structure Reported (root : Root) (a b : Sample) : Prop where
  zones : packages root ++ nested root ≠ []
  before : Readable (packages root ++ nested root) a
  after : Readable (packages root ++ nested root) b
  time : (b.now.sub a.now).nonpos = false
  rising : 0 ≤ gain (packages root ++ nested root) a b

/-- No package fell. -/
def Rising (root : Root) (a b : Sample) : Prop := ∀ zone ∈ packages root, a.uj zone ≤ b.uj zone

/-- Time advanced, from one number to a later one. -/
def Advances (a b : Sample) (ta tb : ℚ) : Prop :=
  a.now.value? = some ta ∧ b.now.value? = some tb ∧ ta < tb

/-- The packages account for the total: none of them fell, and the quotient of the total's gain and
the time comes out, as a float, at what the packages gained over the time. -/
def PackagesAlone (root : Root) (a b : Sample) : Prop :=
  Reported root a b → ∀ w,
    watts (gain (packages root ++ nested root) a b) (b.now.sub a.now) = .ok w →
    Rising root a b ∧ ∃ ta tb, Advances a b ta tb ∧
      w.value? = some (gain (packages root) a b / 1000000 / (tb - ta))

/-- No float is rounded when the total's gain is divided by the time. -/
def Unrounded (root : Root) (a b : Sample) : Prop :=
  Reported root a b → ∃ ta tb, Advances a b ta tb ∧
    let total : ℚ := gain (packages root ++ nested root) a b
    Binary64.IsFloat total ∧ Binary64.IsFloat (total / 1000000) ∧ Binary64.IsFloat (tb - ta) ∧
      Binary64.IsFloat (total / 1000000 / (tb - ta))

/-- Of any two samples that lie one after the other. -/
def Between (samples : List Sample) (P : Sample → Sample → Prop) : Prop :=
  ∀ i a b, samples[i]? = some a → samples[i + 1]? = some b → P a b

/-- A probe's readings are honest: each measured one is the power of the packages since the sample
before. -/
def HonestThroughout (root : Root) (samples : List Sample) : Prop :=
  ∀ j r, (readings (PowerProbe.init root) samples)[j]? = some (.ok r) → r.state = .measured →
    ∃ i a b, j = i + 1 ∧ samples[i]? = some a ∧ samples[j]? = some b ∧ Honest root a b r

theorem gains_iff_reported {root : Root} {a b : Sample} {w : Binary64} :
    Gains (readRaplDomains root) a b w ↔
      Reported root a b ∧
      Power.watts (gain (packages root ++ nested root) a b) (b.now.sub a.now) = .ok w := by
  have hempty : readRaplDomains root ≠ [] ↔ packages root ++ nested root ≠ [] := by
    rw [not_iff_not, ← List.nil_perm, ← List.nil_perm]
    exact ⟨fun h => h.trans (domains_perm root), fun h => h.trans (domains_perm root).symm⟩
  constructor
  · intro h
    refine ⟨⟨hempty.mp h.some, (readable_zones root a).mp h.before,
      (readable_zones root b).mp h.after, h.time, ?_⟩, ?_⟩
    · rw [← gain_zones]
      exact h.rising
    · rw [← gain_zones]
      exact h.watts
  · rintro ⟨h, hw⟩
    rw [← gain_zones] at hw
    refine ⟨hempty.mpr h.zones, (readable_zones root a).mpr h.before,
      (readable_zones root b).mpr h.after, h.time, ?_, hw⟩
    rw [gain_zones]
    exact h.rising

theorem honest_of_gains {root : Root} {a b : Sample} {w : Binary64} {r : PowerReading}
    (h : Gains (readRaplDomains root) a b w) (hr : r.watts = some w) :
    Honest root a b r ↔ Rising root a b ∧ ∃ ta tb, Advances a b ta tb ∧
      w.value? = some (gain (packages root) a b / 1000000 / (tb - ta)) := by
  constructor
  · intro hhonest
    obtain ⟨ta, tb, ha, hb, hlt, hwatts⟩ := hhonest.power
    rw [hr] at hwatts
    exact ⟨hhonest.rising, ta, tb, ⟨ha, hb, hlt⟩, hwatts⟩
  · rintro ⟨hrising, ta, tb, ⟨ha, hb, hlt⟩, hwatts⟩
    have hreported := (gains_iff_reported.mp h).1
    have hpackages : ∀ zone ∈ packages root, zone ∈ packages root ++ nested root :=
      fun _ => List.mem_append_left _
    refine ⟨fun z hz => hreported.before z (hpackages z hz),
      fun z hz => hreported.after z (hpackages z hz), hrising, ta, tb, ha, hb, hlt, ?_⟩
    rw [hr]
    exact hwatts

theorem alone_of_honest {root : Root} {samples : List Sample} (h : HonestThroughout root samples) :
    Between samples (PackagesAlone root) := by
  intro i a b ha hb hreported w hw
  have hgains := gains_iff_reported.mpr ⟨hreported, hw⟩
  have hread := reading_succ (sample_init root) ha hb
  rw [reading_of_gains hgains] at hread
  obtain ⟨i', a', b', hi, ha', hb', hr⟩ := h _ _ hread rfl
  obtain rfl : i' = i := by omega
  obtain rfl := Option.some.inj (ha.symm.trans ha')
  obtain rfl := Option.some.inj (hb.symm.trans hb')
  exact (honest_of_gains hgains rfl).mp hr

theorem honest_of_alone {root : Root} {samples : List Sample}
    (h : Between samples (PackagesAlone root)) :
    HonestThroughout root samples := by
  intro j r hr hmeasured
  obtain ⟨i, a, b, rfl, ha, hb, hread⟩ := measured_from hr hmeasured
  obtain ⟨w, hgains, hwatts⟩ := gains_of_measured hread hmeasured
  obtain ⟨hreported, hw⟩ := gains_iff_reported.mp hgains
  exact ⟨i, a, b, rfl, ha, hb, (honest_of_gains hgains hwatts).mpr (h i a b ha hb hreported w hw)⟩

theorem isFloat_million : Binary64.IsFloat 1000000 := by
  exact_mod_cast Binary64.isFloat_intCast (n := 1000000) (by norm_num)

/-- The quotient of floats that are not rounded. -/
theorem watts_of_isFloat {a b : Sample} {ta tb : ℚ} {n : ℤ} (htime : Advances a b ta tb)
    (hn : Binary64.IsFloat n) (hjoules : Binary64.IsFloat (n / 1000000))
      (hdt : Binary64.IsFloat (tb - ta)) (hwatts : Binary64.IsFloat (n / 1000000 / (tb - ta))) :
    Power.watts n (b.now.sub a.now) = .ok (.finite _ hwatts) := by
  obtain ⟨ha, hb, hlt⟩ := htime
  obtain ⟨hfa, ha⟩ := Binary64.eq_finite ha
  obtain ⟨hfb, hb⟩ := Binary64.eq_finite hb
  have hmillion : million = .finite 1000000 isFloat_million :=
    Binary64.ofRat_of_isFloat isFloat_million
  have hne : tb - ta ≠ 0 := by linarith
  simp only [Power.watts, ha, hb, Binary64.sub_of_isFloat hdt, Binary64.ofInt_of_isFloat hn,
    hmillion, bind, Except.bind, Binary64.div_of_isFloat (by norm_num) hjoules,
    Binary64.div_of_isFloat hne hwatts]

/-- What the float quotient says where it is not rounded. -/
theorem alone_iff_of_unrounded {root : Root} {a b : Sample} (h : Unrounded root a b) :
    PackagesAlone root a b ↔
      (Reported root a b → Rising root a b ∧ gain (nested root) a b = 0) := by
  refine forall_congr' fun hreported => ?_
  obtain ⟨ta, tb, htime, hn, hjoules, hdt, hwatts⟩ := h hreported
  have hcomputed := watts_of_isFloat htime hn hjoules hdt hwatts
  have htotal := gain_append (packages root) (nested root) a b
  have hne : tb - ta ≠ 0 := by
    have := htime.2.2
    linarith
  constructor
  · intro halone
    obtain ⟨hrising, ta', tb', htime', hvalue⟩ := halone _ hcomputed
    obtain rfl := Option.some.inj (htime.1.symm.trans htime'.1)
    obtain rfl := Option.some.inj (htime.2.1.symm.trans htime'.2.1)
    have hequal := Option.some.inj hvalue
    rw [div_left_inj' hne, div_left_inj' (by norm_num), Int.cast_inj] at hequal
    exact ⟨hrising, by omega⟩
  · rintro ⟨hrising, hnested⟩ w hw
    rw [hcomputed] at hw
    cases hw
    refine ⟨hrising, ta, tb, htime, ?_⟩
    rw [hnested, Int.add_zero] at htotal
    rw [← htotal]
    rfl

/-- One zone reads as said, and every other one as said. -/
def reads (now : Int) (zone : Name) (uj other : Int) : Sample :=
  ⟨.ofRat now, fun name => some (if name = zone then uj else other)⟩

theorem between_pair {a b : Sample} {P : Sample → Sample → Prop} : Between [a, b] P ↔ P a b := by
  constructor
  · exact fun h => h 0 a b rfl rfl
  · intro h i a' b' ha hb
    cases i with
    | zero =>
      cases ha
      cases hb
      exact h
    | succ i => cases hb

section Second

variable {root : Root} {zone zone' : Name} {uj uj' other other' : Int}

theorem ofRat_intCast {n : Int} (hn : |n| < 2 ^ 53) :
    Binary64.ofRat n = .finite n (Binary64.isFloat_intCast hn) := Binary64.ofRat_of_isFloat _

theorem isFloat_second : Binary64.IsFloat (((1 : Int) : ℚ) - (0 : Int)) := by
  have hone : ((1 : Int) : ℚ) - (0 : Int) = (1 : Int) := by norm_num
  rw [hone]
  exact Binary64.isFloat_intCast (by norm_num)

theorem reported_second (hzones : packages root ++ nested root ≠ [])
    (hgain : 0 ≤
      gain (packages root ++ nested root) (reads 0 zone uj other) (reads 1 zone' uj' other')) :
    Reported root (reads 0 zone uj other) (reads 1 zone' uj' other') where
  zones := hzones
  before _ _ := rfl
  after _ _ := rfl
  time := by
    simp only [reads, ofRat_intCast (n := 0) (by norm_num), ofRat_intCast (n := 1) (by norm_num),
      Binary64.sub_of_isFloat isFloat_second, Binary64.nonpos]
    norm_num
  rising := hgain

/-- A gain is divided by one second without a rounding, if its joules are a float. -/
theorem unrounded_second {n : Int} (hn : |n| < 2 ^ 53)
    (hjoules : Binary64.IsFloat ((n : ℚ) / 1000000)) (hgain : gain (packages root ++ nested root)
      (reads 0 zone uj other) (reads 1 zone' uj' other') = n) :
    Unrounded root (reads 0 zone uj other) (reads 1 zone' uj' other') := by
  have hvalue (m : Int) (hm : |m| < 2 ^ 53) : (Binary64.ofRat m).value? = some (m : ℚ) := by
    rw [ofRat_intCast hm]
    rfl
  refine fun _ => ⟨(0 : Int), (1 : Int), ⟨hvalue 0 (by norm_num), hvalue 1 (by norm_num),
    by norm_num⟩, ?_⟩
  rw [hgain]
  refine ⟨Binary64.isFloat_intCast hn, hjoules, isFloat_second, ?_⟩
  rw [Int.cast_one, Int.cast_zero, sub_zero, div_one]
  exact hjoules

end Second

theorem isFloat_joules : Binary64.IsFloat (((1500000 : Int) : ℚ) / 1000000) := by
  have hvalue : ((1500000 : Int) : ℚ) / 1000000 = 3 / 2 := by norm_num
  rw [hvalue]
  refine ⟨⟨3, -1, by norm_num, by norm_num, by norm_num⟩, ?_⟩
  have hsmall : |(3 / 2 : ℚ)| < 2 ^ 1 := by norm_num
  exact hsmall.trans (pow_lt_pow_right₀ (by norm_num) (by norm_num))

def onePackage : Root := some [⟨"intel-rapl:0".toList, true⟩, ⟨"intel-rapl:0:0".toList, true⟩]

/-- A package that wraps around is not seen while another one uses more than was lost. -/
example :
    ¬ HonestThroughout (some [⟨"intel-rapl:0".toList, true⟩, ⟨"intel-rapl:1".toList, true⟩])
      [reads 0 "intel-rapl:0".toList 2000000 0, reads 1 "intel-rapl:0".toList 500000 3000000] := by
  intro h
  have hunrounded : Unrounded (some [⟨"intel-rapl:0".toList, true⟩, ⟨"intel-rapl:1".toList, true⟩])
      (reads 0 "intel-rapl:0".toList 2000000 0) (reads 1 "intel-rapl:0".toList 500000 3000000) :=
    unrounded_second (by norm_num) isFloat_joules (by decide)
  have halone := (alone_iff_of_unrounded hunrounded).mp (between_pair.mp (alone_of_honest h))
  obtain ⟨hrising, -⟩ := halone (reported_second (by decide) (by decide))
  exact absurd (hrising "intel-rapl:0".toList (by decide)) (by decide)

end Honesty

end Power
end InferenceEngine
