import Mathlib.Algebra.Order.Floor.Ring
import InferenceEngine.Gateway.Limiter

/-!
# Gateway.RateWindows

Sequences of `check_rate` calls. The limiter keeps one (minute, count) pair for each key, which a
call in another minute replaces. While the times do not go back, that pair is all one has to know:
in each minute the first `rate` calls of a key pass and the rest of them do not (`verdicts_eq`),
whatever the other keys do (`answersOf_filter`).
-/

namespace InferenceEngine
namespace Limiter

structure RateCall where
  keyId : String
  now : ℚ
  /-- a plan's override -/
  rate : Option Int
  deriving DecidableEq

def RateCall.bucket (c : RateCall) : Int := ⌊c.now / 60⌋

/-- The calls in order, each with its answer. -/
def checkRates (l : Limiter) : List RateCall → List (RateCall × Bool)
  | [] => []
  | c :: cs =>
    (c, (l.checkRate c.keyId c.now c.rate).1) :: (l.checkRate c.keyId c.now c.rate).2.checkRates cs

/-- What the calls of one key were answered. -/
def answersOf (l : Limiter) (keyId : String) (cs : List RateCall) : List (RateCall × Bool) :=
  (l.checkRates cs).filter fun a => a.1.keyId = keyId

/-- What the calls of one key in one minute were answered. -/
def verdicts (l : Limiter) (keyId : String) (bucket : Int) (cs : List RateCall) : List Bool :=
  ((l.answersOf keyId cs).filter fun a => a.1.bucket = bucket).map Prod.snd

def callsIn (keyId : String) (bucket : Int) (cs : List RateCall) : List RateCall :=
  cs.filter fun c => c.keyId = keyId ∧ c.bucket = bucket

/-- `n` calls of which the first `m` pass. -/
def firstPass (m n : Nat) : List Bool :=
  List.replicate (min m n) true ++ List.replicate (n - m) false

theorem firstPass_zero (m : Nat) : firstPass m 0 = [] := by
  simp [firstPass]

theorem firstPass_succ_pass (m n : Nat) : firstPass (m + 1) (n + 1) = true :: firstPass m n := by
  simp [firstPass, Nat.succ_min_succ, List.replicate_succ]

theorem firstPass_succ_refuse (n : Nat) : firstPass 0 (n + 1) = false :: firstPass 0 n := by
  simp [firstPass, List.replicate_succ]

theorem count_firstPass (m n : Nat) : (firstPass m n).count true = min m n := by
  simp [firstPass, List.count_replicate]

variable {l : Limiter} {keyId : String} {c : RateCall} {cs : List RateCall}

/-! ## One call -/

@[simp] theorem checkRate_rate (k : String) (now : ℚ) (rate : Option Int) :
    (l.checkRate k now rate).2.rate = l.rate := by
  simp only [checkRate]
  split
  · rfl
  · split <;> rfl

/-- A call reads and writes the window of its own key only. -/
theorem checkRate_windows_of_ne {k : String} (h : k ≠ keyId) (now : ℚ) (rate : Option Int) :
    (l.checkRate k now rate).2.windows keyId = l.windows keyId := by
  have hput (w : Int × Int) : Function.update l.windows k (some w) keyId = l.windows keyId :=
    Function.update_of_ne (Ne.symm h) _ _
  simp only [checkRate]
  split
  · rfl
  · split
    · exact hput _
    · exact hput _

theorem checkRate_congr {l' : Limiter} (hrate : l.rate = l'.rate)
    (hw : l.windows keyId = l'.windows keyId) (now : ℚ) (rate : Option Int) :
    (l.checkRate keyId now rate).1 = (l'.checkRate keyId now rate).1 ∧
      (l.checkRate keyId now rate).2.windows keyId =
      (l'.checkRate keyId now rate).2.windows keyId := by
  have hcount (b : Int) : l.counted keyId b = l'.counted keyId b := by
    simp only [counted, hw]
  simp only [checkRate, hrate, hcount]
  split
  · exact ⟨rfl, hw⟩
  · split <;> simp

/-- A call under a positive rate: it passes when fewer than `r` are counted, and then it is
counted. -/
theorem checkRate_limited {r : Int} (hr : 0 < r) (h : c.rate.getD l.rate = r) :
    (l.checkRate c.keyId c.now c.rate).1 = decide (l.counted c.keyId c.bucket < r) ∧
      (l.checkRate c.keyId c.now c.rate).2.windows c.keyId =
        some (c.bucket, if l.counted c.keyId c.bucket < r then l.counted c.keyId c.bucket + 1
          else l.counted c.keyId c.bucket) := by
  simp only [checkRate, h, if_neg (Int.not_le.mpr hr)]
  rw [show ⌊c.now / 60⌋ = c.bucket from rfl]
  by_cases hfull : r ≤ l.counted c.keyId c.bucket
  · simp [hfull, Int.not_lt.mpr hfull]
  · simp [hfull, Int.not_le.mp hfull]

/-! ## Other keys -/

theorem answersOf_filter (keyId : String) (cs : List RateCall) (l l' : Limiter)
    (hrate : l.rate = l'.rate) (hw : l.windows keyId = l'.windows keyId) :
    l.answersOf keyId cs = l'.answersOf keyId (cs.filter fun c => c.keyId = keyId) := by
  induction cs generalizing l l' with
  | nil => rfl
  | cons c cs ih =>
    by_cases hk : c.keyId = keyId
    · subst hk
      obtain ⟨hans, hwin⟩ := checkRate_congr hrate hw c.now c.rate
      have hrest := ih _ _ (by rw [checkRate_rate, checkRate_rate, hrate]) hwin
      simp only [answersOf] at hrest
      simp [answersOf, checkRates, hans, hrest]
    · have hwin := (checkRate_windows_of_ne hk c.now c.rate).trans hw
      have hrest := ih _ _ (by rw [checkRate_rate, hrate]) hwin
      simp only [answersOf] at hrest ⊢
      simp [checkRates, hk, hrest]

/-! ## Minutes -/

/-- The window of the key is no later than `b`, and its count is within the rate. -/
def WindowOk (l : Limiter) (keyId : String) (r : Int) (b : Int) : Prop :=
  ∀ cur n, l.windows keyId = some (cur, n) → cur ≤ b ∧ 0 ≤ n ∧ n ≤ r

theorem counted_nonneg {r b : Int} (hok : WindowOk l keyId r b) (b' : Int) :
    0 ≤ l.counted keyId b' := by
  unfold counted
  split
  · next cur n hw =>
    split
    · exact (hok cur n hw).2.1
    · exact le_rfl
  · exact le_rfl

theorem counted_le {r b : Int} (hr : 0 < r) (hok : WindowOk l keyId r b) (b' : Int) :
    l.counted keyId b' ≤ r := by
  unfold counted
  split
  · next cur n hw =>
    split
    · exact (hok cur n hw).2.2
    · exact hr.le
  · exact hr.le

theorem counted_eq_zero {r b b' : Int} (hok : WindowOk l keyId r b) (hlt : b < b') :
    l.counted keyId b' = 0 := by
  unfold counted
  split
  · next cur n hw =>
    have hcur := (hok cur n hw).1
    exact if_neg (by omega)
  · rfl

theorem counted_of_window {b n : Int} (hw : l.windows keyId = some (b, n)) (b' : Int) :
    l.counted keyId b' = if b = b' then n else 0 := by
  simp only [counted, hw]

theorem bucket_mono {d : RateCall} (h : c.now ≤ d.now) : c.bucket ≤ d.bucket :=
  Int.floor_le_floor (div_le_div_of_nonneg_right h (by norm_num))

theorem verdicts_cons {b : Int} (h : c.keyId = keyId ∧ c.bucket = b) :
    l.verdicts keyId b (c :: cs) =
      (l.checkRate c.keyId c.now c.rate).1 ::
      (l.checkRate c.keyId c.now c.rate).2.verdicts keyId b cs := by
  simp [verdicts, answersOf, checkRates, h.1, h.2]

theorem verdicts_cons_of_not {b : Int} (h : ¬(c.keyId = keyId ∧ c.bucket = b)) :
    l.verdicts keyId b (c :: cs) = (l.checkRate c.keyId c.now c.rate).2.verdicts keyId b cs := by
  by_cases hk : c.keyId = keyId
  · have hb : c.bucket ≠ b := fun hb => h ⟨hk, hb⟩
    simp [verdicts, answersOf, checkRates, hk, hb]
  · simp [verdicts, answersOf, checkRates, hk]

theorem callsIn_cons {b : Int} (h : c.keyId = keyId ∧ c.bucket = b) :
    callsIn keyId b (c :: cs) = c :: callsIn keyId b cs := by
  simp [callsIn, h.1, h.2]

theorem callsIn_cons_of_not {b : Int} (h : ¬(c.keyId = keyId ∧ c.bucket = b)) :
    callsIn keyId b (c :: cs) = callsIn keyId b cs :=
  List.filter_cons_of_neg (by simpa using h)

theorem callsIn_eq_nil {b : Int} (hfirst : ∀ d ∈ cs, c.now ≤ d.now) (hover : b < c.bucket) :
    callsIn keyId b cs = [] := by
  refine List.filter_eq_nil_iff.mpr fun d hd => ?_
  have hmono := bucket_mono (hfirst d hd)
  have hne : d.bucket ≠ b := by omega
  simp [hne]

/-- In minute `b` the calls pass that still fit beside those already counted. -/
theorem verdicts_eq {r : Int} (hr : 0 < r) (b : Int) (cs : List RateCall) (l : Limiter)
    (hrate : ∀ c ∈ cs, c.keyId = keyId → c.rate.getD l.rate = r)
    (htime : cs.Pairwise fun c d => c.now ≤ d.now)
    (hok : ∀ c ∈ cs, WindowOk l keyId r c.bucket) :
    l.verdicts keyId b cs =
      firstPass (r - l.counted keyId b).toNat (callsIn keyId b cs).length := by
  induction cs generalizing l with
  | nil => exact (firstPass_zero _).symm
  | cons c cs ih =>
    obtain ⟨hfirst, htime⟩ := List.pairwise_cons.mp htime
    have hrate' : ∀ d ∈ cs, d.keyId = keyId →
        d.rate.getD (l.checkRate c.keyId c.now c.rate).2.rate = r := by
      intro d hd hk
      rw [checkRate_rate]
      exact hrate d (List.mem_cons_of_mem c hd) hk
    have hokc := hok c List.mem_cons_self
    by_cases hk : c.keyId = keyId
    · subst hk
      obtain ⟨hans, hwin⟩ := checkRate_limited hr (hrate c List.mem_cons_self rfl)
      have hnonneg := counted_nonneg hokc c.bucket
      have hle := counted_le hr hokc c.bucket
      have hok' : ∀ d ∈ cs, WindowOk (l.checkRate c.keyId c.now c.rate).2 c.keyId r d.bucket := by
        intro d hd cur n hw
        rw [hwin] at hw
        cases hw
        refine ⟨bucket_mono (hfirst d hd), ?_, ?_⟩ <;> split <;> omega
      have hrest := ih _ hrate' htime hok'
      rw [counted_of_window hwin] at hrest
      by_cases hb : c.bucket = b
      · -- the call is one of this minute
        subst hb
        rw [verdicts_cons ⟨rfl, rfl⟩, callsIn_cons ⟨rfl, rfl⟩, List.length_cons, hrest,
          hans, if_pos rfl]
        by_cases hfits : l.counted c.keyId c.bucket < r
        · have hroom : (r - l.counted c.keyId c.bucket).toNat =
              (r - (l.counted c.keyId c.bucket + 1)).toNat + 1 := by omega
          rw [if_pos hfits, decide_eq_true hfits, hroom, firstPass_succ_pass]
        · have hroom : (r - l.counted c.keyId c.bucket).toNat = 0 := by omega
          rw [if_neg hfits, decide_eq_false hfits, hroom, firstPass_succ_refuse]
      · have hout : ¬(c.keyId = c.keyId ∧ c.bucket = b) := fun h => hb h.2
        rw [verdicts_cons_of_not hout, callsIn_cons_of_not hout, hrest, if_neg hb]
        rcases Int.lt_or_gt_of_ne hb with hlater | hover
        · rw [counted_eq_zero hokc hlater]
        · rw [callsIn_eq_nil hfirst hover, List.length_nil, firstPass_zero, firstPass_zero]
    · have hwin := checkRate_windows_of_ne hk (l := l) c.now c.rate
      have hcount : (l.checkRate c.keyId c.now c.rate).2.counted keyId b = l.counted keyId b := by
        simp only [counted, hwin]
      have hok' : ∀ d ∈ cs, WindowOk (l.checkRate c.keyId c.now c.rate).2 keyId r d.bucket := by
        intro d hd cur n hw
        rw [hwin] at hw
        exact hok d (List.mem_cons_of_mem c hd) cur n hw
      have hout : ¬(c.keyId = keyId ∧ c.bucket = b) := fun h => hk h.1
      rw [verdicts_cons_of_not hout, callsIn_cons_of_not hout, ih _ hrate' htime hok', hcount]

/-- A new limiter under a rate `r` for each key: in every minute the first `r` calls of a key pass,
and the answers of a key are those it would get if no other key called. -/
theorem checkRates_init (ratePerMin maxConcurrent : Int) (r : String → Int) (cs : List RateCall)
    (hpos : ∀ k, 0 < r k) (hrate : ∀ c ∈ cs, c.rate.getD ratePerMin = r c.keyId)
    (htime : cs.Pairwise fun c d => c.now ≤ d.now) (keyId : String) :
    (∀ b, (((init ratePerMin maxConcurrent).verdicts keyId b cs).count true : Int) =
        min (r keyId) (callsIn keyId b cs).length) ∧
      (∀ b, (init ratePerMin maxConcurrent).verdicts keyId b cs =
        firstPass (r keyId).toNat (callsIn keyId b cs).length) ∧
      ∀ cs', (cs'.filter fun c => c.keyId = keyId) = (cs.filter fun c => c.keyId = keyId) →
        (init ratePerMin maxConcurrent).answersOf keyId cs' =
          (init ratePerMin maxConcurrent).answersOf keyId cs := by
  have hr := hpos keyId
  have hwindows (b : Int) : (init ratePerMin maxConcurrent).verdicts keyId b cs =
      firstPass (r keyId).toNat (callsIn keyId b cs).length := by
    rw [verdicts_eq hr b cs (init ratePerMin maxConcurrent)
      (fun c hc hk => (hrate c hc).trans (congrArg r hk)) htime (fun c _ cur n hw => by cases hw)]
    rw [show (init ratePerMin maxConcurrent).counted keyId b = 0 from rfl, Int.sub_zero]
  refine ⟨fun b => ?_, hwindows, fun cs' hcs' => ?_⟩
  · rw [hwindows b, count_firstPass]
    omega
  · rw [answersOf_filter keyId cs' _ (init ratePerMin maxConcurrent) rfl rfl, hcs',
      ← answersOf_filter keyId cs _ (init ratePerMin maxConcurrent) rfl rfl]

/-- Two keys that share a minute, and a call in the next one. -/
def twoMinutes : List RateCall :=
  [⟨"a", 3, none⟩, ⟨"b", 4, none⟩, ⟨"a", 5, none⟩, ⟨"a", 59, none⟩, ⟨"a", 60, none⟩]

theorem checkRates_init_twoMinutes :
    (init 2 0).verdicts "a" 0 twoMinutes = [true, true, false] ∧
      (init 2 0).verdicts "a" 1 twoMinutes = [true] := by
  have hpass := (checkRates_init 2 0 (fun _ => 2) twoMinutes (by simp)
    (by simp [twoMinutes]) (by simp [twoMinutes]; norm_num) "a").2.1
  have hcalls : (callsIn "a" 0 twoMinutes).length = 3 ∧ (callsIn "a" 1 twoMinutes).length = 1 := by
    decide +kernel
  rw [hpass 0, hpass 1, hcalls.1, hcalls.2]
  exact ⟨rfl, rfl⟩

end Limiter
end InferenceEngine
