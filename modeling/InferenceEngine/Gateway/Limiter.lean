import Mathlib.Data.Rat.Floor
import Mathlib.Logic.Function.Basic

/-!
# Gateway.Limiter

The in-memory limiter (`gateway.py`): a fixed one-minute window of requests and a count of requests
in flight, both for each key. The dictionaries are functions: a key that is not in `_inflight` has
none in flight.
-/

namespace InferenceEngine

structure Limiter where
  rate : Int
  maxConcurrent : Int
  /-- `_windows`: the minute and the requests counted in it -/
  windows : String → Option (Int × Int)
  inflight : String → Nat

namespace Limiter

def init (ratePerMin maxConcurrent : Int) : Limiter :=
  ⟨ratePerMin, maxConcurrent, fun _ => none, fun _ => 0⟩

/-- The requests of a key already counted in minute `bucket`. -/
def counted (l : Limiter) (keyId : String) (bucket : Int) : Int :=
  match l.windows keyId with
  | some (curBucket, count) => if curBucket = bucket then count else 0
  | none => 0

/-- `check_rate`; `rate` is a plan's override. -/
def checkRate (l : Limiter) (keyId : String) (now : ℚ) (rate : Option Int) : Bool × Limiter :=
  let effective := rate.getD l.rate
  if effective ≤ 0 then (true, l)
  else
    let bucket := ⌊now / 60⌋
    let count := l.counted keyId bucket
    let put (n : Int) : Limiter :=
      { l with windows := Function.update l.windows keyId (some (bucket, n)) }
    if effective ≤ count then (false, put count) else (true, put (count + 1))

/-- `acquire`. -/
def acquire (l : Limiter) (keyId : String) : Bool × Limiter :=
  let taken := { l with inflight := Function.update l.inflight keyId (l.inflight keyId + 1) }
  if l.maxConcurrent ≤ 0 then (true, taken)
  else if l.maxConcurrent ≤ l.inflight keyId then (false, l)
  else (true, taken)

/-- `release`; a count that falls to 0 leaves the dictionary. -/
def release (l : Limiter) (keyId : String) : Limiter :=
  { l with inflight := Function.update l.inflight keyId (l.inflight keyId - 1) }

variable {l : Limiter} {keyId : String}

@[simp] theorem checkRate_inflight (now : ℚ) (rate : Option Int) :
    (l.checkRate keyId now rate).2.inflight = l.inflight := by
  simp only [checkRate]
  split
  · rfl
  · split <;> rfl

@[simp] theorem checkRate_maxConcurrent (now : ℚ) (rate : Option Int) :
    (l.checkRate keyId now rate).2.maxConcurrent = l.maxConcurrent := by
  simp only [checkRate]
  split
  · rfl
  · split <;> rfl

@[simp] theorem acquire_maxConcurrent : (l.acquire keyId).2.maxConcurrent = l.maxConcurrent := by
  simp only [acquire]
  split
  · rfl
  · split <;> rfl

theorem acquire_true (h : (l.acquire keyId).1 = true) (k : String) :
    (l.acquire keyId).2.inflight k = l.inflight k + if keyId = k then 1 else 0 := by
  have htaken : Function.update l.inflight keyId (l.inflight keyId + 1) k =
      l.inflight k + if keyId = k then 1 else 0 := by
    by_cases hk : keyId = k
    · subst hk; simp
    · rw [Function.update_of_ne (Ne.symm hk), if_neg hk, Nat.add_zero]
  simp only [acquire] at h ⊢
  split
  · exact htaken
  · rename_i hpos
    split
    · rename_i hfull
      simp [hpos, hfull] at h
    · exact htaken

theorem acquire_le (h : (l.acquire keyId).1 = true) (hpos : 0 < l.maxConcurrent) :
    ((l.acquire keyId).2.inflight keyId : Int) ≤ l.maxConcurrent := by
  rw [acquire_true h, if_pos rfl]
  simp only [acquire, if_neg (Int.not_le.mpr hpos)] at h
  split at h
  · cases h
  · omega

theorem acquire_false (h : (l.acquire keyId).1 = false) : (l.acquire keyId).2 = l := by
  simp only [acquire] at h ⊢
  split
  · rename_i hpos
    simp [hpos] at h
  · split
    · rfl
    · rename_i hpos hfull
      simp [hpos, hfull] at h

theorem release_inflight (l : Limiter) (keyId k : String) :
    (l.release keyId).inflight k = l.inflight k - if keyId = k then 1 else 0 := by
  simp only [release]
  by_cases hk : keyId = k
  · subst hk; simp
  · rw [Function.update_of_ne (Ne.symm hk), if_neg hk, Nat.sub_zero]

end Limiter
end InferenceEngine
