import InferenceEngine.Inference.Remote

/-!
# Inference.RemoteUsage

What the result of a remote generation says of its finish reason and its usage when earlier attempts
were retried. All attempts record into one `_Outcome`, so that a line seen before a retried failure
counts until a line of the last attempt says otherwise.

* `step_reported`: in every run, the result says what the lines of all attempts have recorded.
* `Alike`: two generations that differ in what was recorded only; the steps keep them so.
* `last_attempt_iff`: when the result is that of the last attempt on its own.
-/

namespace InferenceEngine

open Lts Json Py

/-- What lines record, one after the other. -/
def linesWrites {F : Type} (num : Numbers F) (lines : List (List Char)) : Writes :=
  lines.foldl (fun w line => w.seq (lineWrites num line)) {}

theorem linesWrites_concat {F : Type} (num : Numbers F) (lines : List (List Char))
    (line : List Char) :
    linesWrites num (lines ++ [line]) = (linesWrites num lines).seq (lineWrites num line) := by
  unfold linesWrites
  rw [List.foldl_append]
  rfl

theorem apply_writes_append {F : Type} (num : Numbers F) (a b : List (List Char))
    (outcome : RemoteOutcome) :
    (linesWrites num (a ++ b)).apply outcome =
      (linesWrites num b).apply ((linesWrites num a).apply outcome) := by
  induction b using List.reverseRecOn with
  | nil =>
    rw [List.append_nil]
    exact (Writes.apply_empty _).symm
  | append_singleton b line ih =>
    rw [← List.append_assoc, linesWrites_concat, linesWrites_concat, Writes.apply_seq,
      Writes.apply_seq, ih]

def Place.isReturned {F : Type} : Place F → Bool
  | .returned => true
  | _ => false

namespace RemoteStream

variable {F : Type} (num : Numbers F) (maxPrestreamRetries : Nat) (isChat : Bool)

/-- What was recorded so far, and what was reported of it. -/
structure Reported (s : RemoteStream F) : Prop where
  outcome : s.outcome = (linesWrites num s.lines).apply
    ((linesWrites num s.before).apply { upstreamAttempts := s.outcome.upstreamAttempts })
  index : s.index = s.parts.length
  parts : s.parts = s.log.filterMap (·.token?)
  /-- a generation that has ended has a result, unless its parts cannot be joined -/
  stuck : s.place.going = false → s.result = none → ∃ message, join 0 s.parts = .error message
  ended : s.result.isSome = true → s.place.going = false
  exhausted : s.exhausted = s.result.isSome
  reports : ∀ r ∈ s.result, (s.place.isReturned = true → r.finishReason = s.outcome.finish) ∧
    r.promptTokens = (if s.outcome.usageSeen then s.outcome.promptTokens else 0) ∧
    r.completionTokens = (if s.outcome.usageSeen then s.outcome.completionTokens else s.index)
  text : ∀ r ∈ s.result, join 0 s.parts = .ok r.text

/-- The same in the middle of a step, before `__anext__` goes on. -/
structure Pending (s : RemoteStream F) : Prop where
  outcome : s.outcome = (linesWrites num s.lines).apply
    ((linesWrites num s.before).apply { upstreamAttempts := s.outcome.upstreamAttempts })
  index : s.index = s.parts.length
  parts : s.log.filterMap (·.token?) = s.parts ++
    match s.place with
    | .yielded v _ => [v]
    | _ => []
  result : s.result = none
  exhausted : s.exhausted = false

variable {num maxPrestreamRetries isChat} {s s' : RemoteStream F} {l : RemoteLabel}

theorem buildResult_cases (s : RemoteStream F) (finish : FinishReason) (hresult : s.result = none) :
    (∃ message, join 0 s.parts = .error message ∧ s.buildResult finish = .error message) ∨
    ∃ text, join 0 s.parts = .ok text ∧ s.buildResult finish = .ok { s with
      result := some
        { text := text
          finishReason := finish
          promptTokens := if s.outcome.usageSeen then s.outcome.promptTokens else 0
          completionTokens := if s.outcome.usageSeen then s.outcome.completionTokens else s.index }
      exhausted := true } := by
  unfold buildResult
  rw [hresult, if_neg (by simp)]
  cases join 0 s.parts with
  | error message => exact .inl ⟨message, rfl, rfl⟩
  | ok text => exact .inr ⟨text, rfl, rfl⟩

theorem buildResult_isSome {finish : FinishReason} (h : s.buildResult finish = .ok s') :
    s'.result.isSome = true := by
  unfold buildResult at h
  split at h
  · cases h
    assumption
  · split at h
    · cases h
    · cases h
      rfl

theorem Pending.conclude (hs : Pending num s) (hended : s.place.going = false)
    {finish : FinishReason} (hfinish : s.place.isReturned =
      true → (∃ message, join 0 s.parts = .error message) ∨ finish = s.outcome.finish)
    (answer : Answer F) :
    Reported num (s.conclude finish answer) := by
  have hparts : s.parts = s.log.filterMap (·.token?) := by
    rw [hs.parts]
    split
    · rename_i v rest hyielded
      rw [hyielded] at hended
      cases hended
    · exact (List.append_nil _).symm
  unfold RemoteStream.conclude
  rcases buildResult_cases s finish hs.result with ⟨message, hjoin, hresult⟩ |
      ⟨text, hjoin, hresult⟩
  · rw [hresult]
    exact ⟨hs.outcome, hs.index, hparts, fun _ _ => ⟨message, hjoin⟩, fun _ => hended,
      by rw [hs.result, hs.exhausted]; rfl, by simp [hs.result], by simp [hs.result]⟩
  · rw [hresult]
    refine ⟨hs.outcome, hs.index, hparts, ?_, fun _ => hended, rfl, ?_, ?_⟩
    · intro _ h
      cases h
    · intro r hr
      cases hr
      refine ⟨fun hreturned => ?_, rfl, rfl⟩
      rcases hfinish hreturned with ⟨message, hjoin'⟩ | heq
      · rw [hjoin] at hjoin'
        cases hjoin'
      · exact heq
    · intro r hr
      cases hr
      exact hjoin

theorem Pending.settle (hs : Pending num s) : Reported num s.settle := by
  have hquiet : (∀ v rest, s.place ≠ .yielded v rest) → s.place.going = true →
      Reported num { s with answer := none } := by
    intro hyielded hgoing
    refine ⟨hs.outcome, hs.index, ?_, ?_, by simp [hs.result], ?_, by simp [hs.result],
      by simp [hs.result]⟩
    · show s.parts = _
      rw [hs.parts]
      split
      · rename_i v rest h
        exact absurd h (hyielded v rest)
      · exact (List.append_nil _).symm
    · intro h
      rw [show s.place.going = false from h] at hgoing
      cases hgoing
    · show s.exhausted = _
      rw [hs.exhausted, hs.result]
      rfl
  unfold RemoteStream.settle
  split
  · rename_i hplace
    exact hquiet (by simp [hplace]) (by rw [hplace]; rfl)
  · rename_i hplace
    exact hquiet (by simp [hplace]) (by rw [hplace]; rfl)
  · rename_i hplace
    exact hquiet (by simp [hplace]) (by rw [hplace]; rfl)
  · rename_i v rest hplace
    have hparts := hs.parts
    rw [hplace] at hparts
    refine ⟨hs.outcome, ?_, hparts.symm, ?_, by simp [hs.result], ?_, by simp [hs.result],
      by simp [hs.result]⟩
    · show s.index + 1 = (s.parts ++ [v]).length
      rw [List.length_append, hs.index]
      rfl
    · intro h
      have h : s.place.going = false := h
      rw [hplace] at h
      cases h
    · show s.exhausted = _
      rw [hs.exhausted, hs.result]
      rfl
  · rename_i hplace
    exact hs.conclude (by rw [hplace]; rfl) (fun _ => .inr rfl) _
  · rename_i message hplace
    refine hs.conclude (by rw [hplace]; rfl) (fun h => ?_) _
    rw [hplace] at h
    cases h

/-- Nothing is reported while the generator goes on. -/
theorem Reported.pending (hs : Reported num s) (hgoing : s.place.going = true) {place : Place F}
    (hyielded : ∀ v rest, place ≠ .yielded v rest) : Pending num { s with place := place } := by
  have hresult : s.result = none := by
    cases hresult : s.result with
    | none => rfl
    | some r =>
      have hended := hs.ended (by rw [hresult]; rfl)
      rw [hended] at hgoing
      cases hgoing
  refine ⟨hs.outcome, hs.index, ?_, hresult, by rw [hs.exhausted, hresult]; rfl⟩
  rw [← hs.parts]
  split
  · rename_i v rest h
    exact absurd h (hyielded v rest)
  · exact (List.append_nil _).symm

theorem Pending.logged (hs : Pending num s) {e : RemoteEvent F} (he : e.token? = none) :
    Pending num { s with log := s.log ++ [e] } := by
  refine { hs with parts := ?_ }
  rw [List.filterMap_append, hs.parts, List.filterMap_cons, he, List.filterMap_nil, List.append_nil]

theorem Pending.post (hs : Pending num s) (hyielded : ∀ v rest, s.place ≠ .yielded v rest) :
    Pending num s.post := by
  refine ⟨?_, hs.index, ?_, hs.result, hs.exhausted⟩
  · show ({ s.outcome with upstreamAttempts := s.outcome.upstreamAttempts + 1 } : RemoteOutcome) =
      Writes.apply {} ((linesWrites num (s.before ++ s.lines)).apply _)
    rw [Writes.apply_empty, apply_writes_append]
    conv_lhs => rw [hs.outcome]
    rfl
  · show (s.log ++ [RemoteEvent.posted]).filterMap RemoteEvent.token? = s.parts ++ []
    rw [List.filterMap_append, hs.parts]
    split
    · rename_i v rest h
      exact absurd h (hyielded v rest)
    · simp [RemoteEvent.token?]

section

variable (hs : Reported num s) (hgoing : s.place.going = true)
include hs hgoing

theorem Reported.caught (retriable : Bool) (message : String) :
    Pending num (s.caught maxPrestreamRetries retriable message) := by
  unfold RemoteStream.caught
  split
  · have hraised : Pending num { s with place := .raised message } := hs.pending hgoing (by simp)
    exact hraised.logged rfl
  · have hposting : Pending num { s with place := .posting } := hs.pending hgoing (by simp)
    have hlogged : Pending num { s with
        attempts := s.attempts + 1, place := .posting, log := s.log ++ [.failed retriable] } :=
      { hposting.logged (e := .failed retriable) rfl with }
    exact hlogged.post (by simp)

theorem Reported.raise (message : String) : Pending num (s.raise message) := by
  have hraised : Pending num { s with place := .raised message } := hs.pending hgoing (by simp)
  exact hraised.logged rfl

theorem Reported.fault (fault : UpstreamFault) :
    Pending num (s.fault maxPrestreamRetries fault) := by
  cases fault with
  | transport message => exact hs.caught hgoing true message
  | other message => exact hs.raise hgoing message

theorem Reported.receive (line : List Char) : Pending num (s.receive num isChat line) := by
  have hparse := parseSseLine_eq num isChat line s.outcome
  have hpending : ∀ place : Place F, (∀ v rest, place ≠ .yielded v rest) →
      Pending num { s with
        outcome := (lineWrites num line).apply s.outcome
        place := place
        lines := s.lines ++ [line] } := by
    intro place hyielded
    have h := hs.pending hgoing hyielded
    refine { h with outcome := ?_ }
    show (lineWrites num line).apply s.outcome = (linesWrites num (s.lines ++ [line])).apply _
    rw [linesWrites_concat, Writes.apply_seq]
    conv_lhs => rw [hs.outcome]
    rfl
  unfold RemoteStream.receive
  rw [hparse]
  dsimp only
  rcases parseSseLine_cases num isChat line {} with ⟨e, hresult⟩ | hresult | hresult | ⟨v, hresult⟩
  · rw [hresult]
    exact (hpending (.raised e) (by simp)).logged rfl
  · rw [hresult]
    exact hpending .returned (by simp)
  · rw [hresult]
    exact hpending .reading (by simp)
  · rw [hresult]
    have hreading := hpending .reading (by simp)
    refine { hreading with parts := ?_ }
    show (s.log ++ [RemoteEvent.yielded _ v]).filterMap (·.token?) = s.parts ++ [v]
    rw [List.filterMap_append, ← hs.parts]
    rfl

end

theorem Reported.answered (hs : Reported num s) (answer : Option (Answer F)) :
    Reported num { s with answer := answer } :=
  { hs with }

/-- A generator that has ended is asked again. -/
theorem Reported.conclude (hs : Reported num s) (hended : s.place.going = false)
    (hexhausted : s.exhausted = false) (finish : FinishReason) (answer : Answer F) :
    ∃ message, s.conclude finish answer = { s with answer := some (.raised (.other message)) } := by
  have hresult : s.result = none := by
    rw [hs.exhausted] at hexhausted
    simpa using hexhausted
  obtain ⟨message, hjoin⟩ := hs.stuck hended hresult
  refine ⟨message, ?_⟩
  unfold RemoteStream.conclude buildResult
  rw [hresult, if_neg (by simp), hjoin]

theorem Reported.closeTokens (hs : Reported num s) (hidle : s.place.waiting = false) :
    s.result.isSome = true ∧ s.closeTokens = s ∨
    Pending num s.closeTokens ∧ s.closeTokens.place.going = false ∧
      (s.closeTokens.place.isReturned = true → ∃ message,
      join 0 s.closeTokens.parts = .error message) := by
  unfold RemoteStream.closeTokens
  split
  · rename_i hplace
    exact .inr ⟨hs.pending (by rw [hplace]; rfl) (by simp), rfl, fun h => by cases h⟩
  · rename_i v rest hplace
    exact .inr ⟨hs.pending (by rw [hplace]; rfl) (by simp), rfl, fun h => by cases h⟩
  · rename_i hcreated hyielded
    have hended : s.place.going = false := by
      cases hplace : s.place with
      | created => exact absurd hplace hcreated
      | yielded v rest => exact absurd hplace (hyielded v rest)
      | posting | reading =>
        rw [hplace] at hidle
        cases hidle
      | returned | raised message => rfl
    cases hresult : s.result with
    | some r => exact .inl ⟨rfl, rfl⟩
    | none =>
      refine .inr ⟨⟨hs.outcome, hs.index, ?_, hresult, ?_⟩, hended,
        fun _ => hs.stuck hended hresult⟩
      · rw [← hs.parts]
        split
        · rename_i v rest h
          exact absurd h (hyielded v rest)
        · exact (List.append_nil _).symm
      · rw [hs.exhausted, hresult]
        rfl

/-- After `aclose`, whether or not the parts can be joined. -/
theorem Reported.concludeClosed (hs : Reported num s) (hidle : s.place.waiting = false)
    (answer : Answer F) : Reported num (s.closeTokens.conclude .cancelled answer) := by
  rcases hs.closeTokens hidle with ⟨hsome, heq⟩ | ⟨hpending, hended, hstuck⟩
  · rw [heq]
    unfold RemoteStream.conclude buildResult
    rw [if_pos hsome]
    exact hs.answered _
  · exact hpending.conclude hended (fun h => .inl (hstuck h)) answer

theorem step_reported (hinv : Inv num maxPrestreamRetries isChat s)
    (hs : Reported num s) (hst : step num maxPrestreamRetries isChat s l = some s') :
    Reported num s' := by
  cases moves_of_step hst with
  | drained hidle hexhausted => exact hs.answered _
  | start hplace hexhausted =>
    have hpending : Pending num { s with place := .posting } :=
      hs.pending (by rw [hplace]; rfl) (by simp)
    exact (Pending.post hpending (by simp)).settle
  | @resume v rest hplace hexhausted =>
    have hrest := hinv.rest v rest hplace
    subst hrest
    have hpending : Pending num { s with place := .reading } :=
      hs.pending (by rw [hplace]; rfl) (by simp)
    exact hpending.settle
  | again hended hexhausted =>
    obtain ⟨message, heq⟩ := hs.conclude hended hexhausted s.outcome.finish .stopAsyncIteration
    rw [heq]
    exact hs.answered _
  | closed hidle hclosed => exact hs
  | close hidle hclosed hresult =>
    have hclosing : Reported num { s with closed := true } := { hs with }
    have hconclude := hclosing.concludeClosed hidle .stopAsyncIteration
    unfold RemoteStream.conclude at hconclude
    rw [hresult] at hconclude
    exact { hconclude with exhausted := (buildResult_isSome hresult).symm }
  | closeRaises hidle hclosed hresult =>
    have hclosing : Reported num { s with closed := true } := { hs with }
    have hconclude := hclosing.concludeClosed hidle .stopAsyncIteration
    unfold RemoteStream.conclude at hconclude
    rw [hresult] at hconclude
    exact hconclude
  | refused fault hplace | unreadable fault hplace | broke fault hplace =>
    exact (hs.fault (by rw [hplace]; rfl) fault).settle
  | opened read hplace =>
    have hpending : Pending num { s with place := .reading } :=
      hs.pending (by rw [hplace]; rfl) (by simp)
    exact hpending.settle
  | rejected hplace => exact (hs.caught (by rw [hplace]; rfl) _ _).settle
  | line line hplace => exact (hs.receive (by rw [hplace]; rfl) line).settle
  | ended hplace =>
    have hpending : Pending num { s with place := .returned } :=
      hs.pending (by rw [hplace]; rfl) (by simp)
    exact hpending.settle

/-! ## Two generations -/

/-- The second one stands where the first one does, and has made one attempt; what was recorded, and
so what is reported of it, may differ. -/
structure Alike (s s' : RemoteStream F) : Prop where
  place : s'.place = s.place
  yieldedAny : s'.yieldedAny = s.yieldedAny
  index : s'.index = s.index
  parts : s'.parts = s.parts
  exhausted : s'.exhausted = s.exhausted
  closed : s'.closed = s.closed
  lines : s'.lines = s.lines
  result : s'.result.isSome = s.result.isSome
  finish : s.place.isReturned = false →
    s'.result.map (·.finishReason) = s.result.map (·.finishReason)
  first : s'.before = []

theorem Alike.buildResult (h : Alike s s') (finish finish' : FinishReason)
    (hfinish : s.place.isReturned = false →
      (∃ message, join 0 s.parts = .error message) ∨ finish' = finish) :
    (∃ message, s.buildResult finish = .error message ∧ s'.buildResult finish' = .error message) ∨
    ∃ t t', s.buildResult finish = .ok t ∧ s'.buildResult finish' = .ok t' ∧ Alike t t' := by
  cases hresult : s.result with
  | some r =>
    have hsome : s.result.isSome = true := by rw [hresult]; rfl
    have hsome' : s'.result.isSome = true := by rw [h.result, hsome]
    refine .inr ⟨s, s', ?_, ?_, h⟩
    · unfold RemoteStream.buildResult
      rw [if_pos hsome]
    · unfold RemoteStream.buildResult
      rw [if_pos hsome']
  | none =>
    have hnone : s'.result = none := by
      have hnone := h.result
      rw [hresult] at hnone
      simpa using hnone
    rcases buildResult_cases s finish hresult with ⟨message, hjoin, hbuild⟩ | ⟨text, hjoin, hbuild⟩
    · rcases buildResult_cases s' finish' hnone with ⟨message', hjoin', hbuild'⟩ | ⟨text',
          hjoin', hbuild'⟩
      · rw [h.parts, hjoin] at hjoin'
        cases hjoin'
        exact .inl ⟨message, hbuild, hbuild'⟩
      · rw [h.parts, hjoin] at hjoin'
        cases hjoin'
    · rcases buildResult_cases s' finish' hnone with ⟨message', hjoin', hbuild'⟩ | ⟨text',
          hjoin', hbuild'⟩
      · rw [h.parts, hjoin] at hjoin'
        cases hjoin'
      · refine .inr ⟨_, _, hbuild, hbuild', ⟨h.place, h.yieldedAny, h.index, h.parts, rfl,
          h.closed, h.lines, rfl, fun hreturned => ?_, h.first⟩⟩
        rcases hfinish hreturned with ⟨message, herror⟩ | heq
        · rw [hjoin] at herror
          cases herror
        · rw [heq]
          rfl

theorem Alike.answered (h : Alike s s') (answer : Option (Answer F)) (answer' : Option (Answer F)) :
    Alike { s with answer := answer } { s' with answer := answer' } :=
  { h with }

theorem Alike.conclude (h : Alike s s') {finish finish' : FinishReason} (answer : Answer F)
    (hfinish : s.place.isReturned = false →
      (∃ message, join 0 s.parts = .error message) ∨ finish' = finish) :
    Alike (s.conclude finish answer) (s'.conclude finish' answer) := by
  unfold RemoteStream.conclude
  rcases h.buildResult finish finish' hfinish with ⟨message, hbuild, hbuild'⟩ | ⟨t, t',
      hbuild, hbuild', ht⟩
  · rw [hbuild, hbuild']
    exact h.answered _ _
  · rw [hbuild, hbuild']
    exact ht.answered _ _

theorem Alike.settle (h : Alike s s') : Alike s.settle s'.settle := by
  unfold RemoteStream.settle
  rw [h.place]
  split
  · exact { h with place := rfl }
  · exact { h with place := rfl }
  · exact { h with place := rfl }
  · exact { h with place := rfl, index := by rw [h.index], parts := by rw [h.parts] }
  · rename_i hplace
    refine h.conclude _ fun hreturned => ?_
    rw [hplace] at hreturned
    cases hreturned
  · exact h.conclude _ fun _ => .inr rfl

theorem Alike.moved (h : Alike s s') (place : Place F) (hresult : s.result = none)
    (log log' : List (RemoteEvent F)) :
    Alike { s with place := place, log := log } { s' with place := place, log := log' } := by
  have hnone : s'.result = none := by
    have hnone := h.result
    rw [hresult] at hnone
    simpa using hnone
  exact { h with place := rfl, finish := fun _ => by rw [hresult, hnone] }

theorem Alike.caught (h : Alike s s') (hresult : s.result = none) {retriable : Bool}
    {message : String} (hsame :
      (s.caught maxPrestreamRetries retriable message).outcome.upstreamAttempts =
      s.outcome.upstreamAttempts) :
    Alike (s.caught maxPrestreamRetries retriable message) (s'.caught 0 retriable message) := by
  unfold RemoteStream.caught at hsame ⊢
  rw [if_pos (by simp : (s'.yieldedAny || !retriable || decide (0 ≤ s'.attempts)) = true)]
  split at hsame
  · rename_i hover
    rw [if_pos hover]
    exact h.moved _ hresult _ _
  · have hposted : s.outcome.upstreamAttempts + 1 = s.outcome.upstreamAttempts := hsame
    omega

theorem Alike.fault (h : Alike s s') (hresult : s.result = none) {fault : UpstreamFault}
    (hsame : (s.fault maxPrestreamRetries fault).outcome.upstreamAttempts =
      s.outcome.upstreamAttempts) :
    Alike (s.fault maxPrestreamRetries fault) (s'.fault 0 fault) := by
  cases fault with
  | transport message => exact h.caught hresult hsame
  | other message => exact h.moved _ hresult _ _

theorem Alike.receive (h : Alike s s') (hresult : s.result = none) (line : List Char) :
    Alike (s.receive num isChat line) (s'.receive num isChat line) := by
  have hlines : Alike { s with
        outcome := (lineWrites num line).apply s.outcome, lines := s.lines ++ [line] }
      { s' with outcome := (lineWrites num line).apply s'.outcome, lines := s'.lines ++ [line] } :=
    { h with lines := by rw [h.lines] }
  unfold RemoteStream.receive
  rw [parseSseLine_eq num isChat line s.outcome, parseSseLine_eq num isChat line s'.outcome]
  dsimp only
  rcases parseSseLine_cases num isChat line {} with ⟨e, hparse⟩ | hparse | hparse | ⟨v, hparse⟩
  · rw [hparse]
    exact hlines.moved _ hresult _ _
  · rw [hparse]
    exact hlines.moved _ hresult _ _
  · rw [hparse]
    exact hlines.moved _ hresult _ _
  · rw [hparse]
    have hyielded := hlines.moved (.yielded v []) hresult
      (s.log ++ [.yielded s.outcome.upstreamAttempts v])
      (s'.log ++ [.yielded s'.outcome.upstreamAttempts v])
    exact { hyielded with yieldedAny := rfl }

theorem Alike.closeTokens (h : Alike s s') (hs : Reported num s) :
    Alike s.closeTokens s'.closeTokens := by
  have hraised : s.place.going = true →
      Alike { s with place := .raised "" } { s' with place := .raised "" } := by
    intro hgoing
    have hpending : Pending num { s with place := .raised "" } := hs.pending hgoing (by simp)
    exact h.moved _ hpending.result _ _
  unfold RemoteStream.closeTokens
  rw [h.place]
  split
  · rename_i hplace
    exact hraised (by rw [hplace]; rfl)
  · rename_i v rest hplace
    exact hraised (by rw [hplace]; rfl)
  · exact h

/-- A step of a generation that makes no other attempt is one of a generation that has not recorded
the same. -/
theorem Alike.step (h : Alike s s') (hinv : Inv num maxPrestreamRetries isChat s)
    (hs : Reported num s) {t : RemoteStream F}
      (hst : RemoteStream.step num maxPrestreamRetries isChat s l = some t)
      (hstarted : 0 < s.outcome.upstreamAttempts)
      (hsame : t.outcome.upstreamAttempts = s.outcome.upstreamAttempts) :
    ∃ t', RemoteStream.step num 0 isChat s' l = some t' ∧ Alike t t' := by
  have hnone : s.place.going = true → s.result = none := by
    intro hgoing
    have hpending : Pending num { s with place := .posting } := hs.pending hgoing (by simp)
    exact hpending.result
  cases moves_of_step hst with
  | drained hidle hexhausted =>
    refine ⟨{ s' with answer := some .stopAsyncIteration }, ?_, h.answered _ _⟩
    simp [RemoteStream.step, RemoteStream.anext, h.place, hidle, h.exhausted, hexhausted]
  | start hplace hexhausted =>
    have hzero := (hinv.created hplace).1
    omega
  | @resume v rest hplace hexhausted =>
    have hrest := hinv.rest v rest hplace
    subst hrest
    have hmoved : Alike { s with place := .reading } { s' with place := .reading } :=
      h.moved .reading (hnone (by rw [hplace]; rfl)) _ _
    refine ⟨{ s' with place := .reading }.settle, ?_, ?_⟩
    · simp [RemoteStream.step, RemoteStream.anext, h.place, hplace, h.exhausted, hexhausted,
        Place.waiting, proceed]
    · exact hmoved.settle
  | again hended hexhausted =>
    have hresult : s.result = none := by
      have hsome := hs.exhausted
      rw [hexhausted] at hsome
      simpa using hsome.symm
    refine ⟨s'.conclude s'.outcome.finish .stopAsyncIteration, ?_,
      h.conclude _ fun _ => .inl (hs.stuck hended hresult)⟩
    have hidle : s.place.waiting = false := by
      cases hplace : s.place with
      | returned | raised message => rfl
      | created | posting | reading | yielded v rest =>
        rw [hplace] at hended
        cases hended
    simp only [RemoteStream.step, RemoteStream.anext, h.place, hidle, h.exhausted, hexhausted,
      Bool.false_eq_true, if_false]
    split
    · rename_i hplace
      rw [hplace] at hended
      cases hended
    · rename_i hplace
      rw [hplace] at hended
      cases hended
    · rfl
  | closed hidle hclosed =>
    refine ⟨s', ?_, h⟩
    simp [RemoteStream.step, RemoteStream.aclose, h.place, hidle, h.closed, hclosed]
  | @close hidle hclosed t hresult =>
    have hclosing : Reported num { s with closed := true } := { hs with }
    have halike : Alike { s with closed := true } { s' with closed := true } :=
      { h with closed := rfl }
    rcases (halike.closeTokens hclosing).buildResult .cancelled .cancelled (fun _ => .inr rfl) with
      ⟨message, hbuild, -⟩ | ⟨u, u', hbuild, hbuild', hu⟩
    · rw [hresult] at hbuild
      cases hbuild
    · rw [hresult] at hbuild
      cases hbuild
      refine ⟨{ u' with exhausted := true }, ?_, { hu with exhausted := rfl }⟩
      simp only [RemoteStream.step, RemoteStream.aclose, h.place, hidle, h.closed, hclosed,
        Bool.false_eq_true, if_false]
      rw [← h.place, hbuild']
  | closeRaises hidle hclosed hresult =>
    have hclosing : Reported num { s with closed := true } := { hs with }
    have halike : Alike { s with closed := true } { s' with closed := true } :=
      { h with closed := rfl }
    have htokens := halike.closeTokens hclosing
    rcases htokens.buildResult .cancelled .cancelled (fun _ => .inr rfl) with
      ⟨message, hbuild, hbuild'⟩ | ⟨u, u', hbuild, -, -⟩
    · refine ⟨_, ?_, htokens.answered _ (some (.raised (.other message)))⟩
      simp only [RemoteStream.step, RemoteStream.aclose, h.place, hidle, h.closed, hclosed,
        Bool.false_eq_true, if_false]
      rw [← h.place, hbuild']
    · rw [hresult] at hbuild
      cases hbuild
  | refused fault hplace =>
    rw [(settle_same _).outcome] at hsame
    refine ⟨(s'.fault 0 fault).settle, ?_, (h.fault (hnone (by rw [hplace]; rfl)) hsame).settle⟩
    simp only [RemoteStream.step, h.place, hplace]
  | opened read hplace =>
    have hmoved : Alike { s with place := .reading } { s' with place := .reading } :=
      h.moved .reading (hnone (by rw [hplace]; rfl)) _ _
    refine ⟨{ s' with place := .reading }.settle, ?_, hmoved.settle⟩
    simp only [RemoteStream.step, h.place, hplace, if_true]
  | unreadable fault hplace hstatus =>
    rw [(settle_same _).outcome] at hsame
    refine ⟨(s'.fault 0 fault).settle, ?_, (h.fault (hnone (by rw [hplace]; rfl)) hsame).settle⟩
    simp only [RemoteStream.step, h.place, hplace, if_neg hstatus]
  | rejected hplace hstatus =>
    rw [(settle_same _).outcome] at hsame
    refine ⟨_, ?_, (h.caught (hnone (by rw [hplace]; rfl)) hsame).settle⟩
    simp only [RemoteStream.step, h.place, hplace, if_neg hstatus]
  | line line hplace =>
    refine ⟨(s'.receive num isChat line).settle, ?_,
      (h.receive (hnone (by rw [hplace]; rfl)) line).settle⟩
    simp only [RemoteStream.step, h.place, hplace]
  | ended hplace =>
    have hmoved : Alike { s with place := .returned } { s' with place := .returned } :=
      h.moved .returned (hnone (by rw [hplace]; rfl)) _ _
    refine ⟨{ s' with place := .returned }.settle, ?_, hmoved.settle⟩
    simp only [RemoteStream.step, h.place, hplace]
  | broke fault hplace =>
    rw [(settle_same _).outcome] at hsame
    refine ⟨(s'.fault 0 fault).settle, ?_, (h.fault (hnone (by rw [hplace]; rfl)) hsame).settle⟩
    simp only [RemoteStream.step, h.place, hplace]

/-! ## Runs -/

theorem caught_attempts_le (s : RemoteStream F) (retriable : Bool) (message : String) :
    s.outcome.upstreamAttempts ≤
      (s.caught maxPrestreamRetries retriable message).outcome.upstreamAttempts := by
  unfold RemoteStream.caught
  split
  · exact Nat.le_refl _
  · exact Nat.le_succ _

theorem fault_attempts_le (s : RemoteStream F) (fault : UpstreamFault) :
    s.outcome.upstreamAttempts ≤ (s.fault maxPrestreamRetries fault).outcome.upstreamAttempts := by
  cases fault with
  | transport message => exact caught_attempts_le s true message
  | other message => exact Nat.le_refl _

theorem receive_attempts (s : RemoteStream F) (line : List Char) :
    (s.receive num isChat line).outcome.upstreamAttempts = s.outcome.upstreamAttempts := by
  unfold RemoteStream.receive
  rw [parseSseLine_eq]
  dsimp only
  rcases parseSseLine_cases num isChat line {} with ⟨e, hparse⟩ | hparse | hparse | ⟨v, hparse⟩
  · rw [hparse]
    rfl
  · rw [hparse]
    rfl
  · rw [hparse]
    rfl
  · rw [hparse]
    rfl

theorem closeTokens_outcome (s : RemoteStream F) : s.closeTokens.outcome = s.outcome := by
  unfold RemoteStream.closeTokens
  split
  · rfl
  · rfl
  · rfl

theorem step_attempts_le (hst : step num maxPrestreamRetries isChat s l = some s') :
    s.outcome.upstreamAttempts ≤ s'.outcome.upstreamAttempts := by
  cases moves_of_step hst with
  | drained | closed => exact Nat.le_refl _
  | start =>
    rw [(settle_same _).outcome]
    exact Nat.le_succ _
  | @resume v rest hplace =>
    rw [(settle_same _).outcome]
    cases rest with
    | nil => exact Nat.le_refl _
    | cons item rest =>
      cases item with
      | done => exact Nat.le_refl _
      | text v' => exact Nat.le_refl _
  | again => rw [(conclude_same ..).outcome]
  | close hidle hclosed hresult =>
    show _ ≤ RemoteOutcome.upstreamAttempts (RemoteStream.outcome _)
    rw [(buildResult_same hresult).outcome, closeTokens_outcome]
  | closeRaises =>
    show _ ≤ RemoteOutcome.upstreamAttempts (RemoteStream.outcome _)
    rw [closeTokens_outcome]
  | refused fault | unreadable fault | broke fault =>
    rw [(settle_same _).outcome]
    exact fault_attempts_le s fault
  | opened | ended => rw [(settle_same _).outcome]
  | rejected =>
    rw [(settle_same _).outcome]
    exact caught_attempts_le s _ _
  | line line => rw [(settle_same _).outcome, receive_attempts]

theorem run_attempts_le {ls : List RemoteLabel}
    (h : Run (step num maxPrestreamRetries isChat) s ls s') :
    s.outcome.upstreamAttempts ≤ s'.outcome.upstreamAttempts := by
  induction h with
  | refl => exact Nat.le_refl _
  | cons hst _ ih => exact (step_attempts_le hst).trans ih

theorem Alike.run (h : Alike s s') (hinv : Inv num maxPrestreamRetries isChat s)
    (hs : Reported num s) (hstarted : 0 < s.outcome.upstreamAttempts) {ls : List RemoteLabel}
      {t : RemoteStream F} (hrun : Run (RemoteStream.step num maxPrestreamRetries isChat) s ls t)
      (hsame : t.outcome.upstreamAttempts = s.outcome.upstreamAttempts) :
    ∃ t', Run (RemoteStream.step num 0 isChat) s' ls t' ∧ Alike t t' := by
  induction hrun generalizing s' with
  | refl => exact ⟨s', .refl, h⟩
  | cons hst hrest ih =>
    have hle := step_attempts_le hst
    have hle' := run_attempts_le hrest
    obtain ⟨u', hst', hu⟩ := h.step hinv hs hst hstarted (by omega)
    obtain ⟨t', hrun', ht⟩ :=
        ih hu (step_inv hinv hst) (step_reported hinv hs hst) (by omega) (by omega)
    exact ⟨t', .cons hst' hrun', ht⟩

/-! ## A stream that is closed -/

theorem conclude_closed (s : RemoteStream F) (finish : FinishReason) (answer : Answer F) :
    (s.conclude finish answer).closed = s.closed := by
  unfold RemoteStream.conclude buildResult
  split
  · rename_i t ht
    split at ht
    · cases ht
      rfl
    · split at ht <;> cases ht
      rfl
  · rfl

theorem settle_closed (s : RemoteStream F) : s.settle.closed = s.closed := by
  unfold RemoteStream.settle
  split
  · rfl
  · rfl
  · rfl
  · rfl
  · exact conclude_closed ..
  · exact conclude_closed ..

theorem caught_closed (s : RemoteStream F) (retriable : Bool) (message : String) :
    (s.caught maxPrestreamRetries retriable message).closed = s.closed := by
  unfold RemoteStream.caught
  split
  · rfl
  · rfl

theorem fault_closed (s : RemoteStream F) (fault : UpstreamFault) :
    (s.fault maxPrestreamRetries fault).closed = s.closed := by
  cases fault with
  | transport message => exact caught_closed s true message
  | other message => rfl

theorem receive_closed (s : RemoteStream F) (line : List Char) :
    (s.receive num isChat line).closed = s.closed := by
  unfold RemoteStream.receive
  dsimp only
  split
  · rfl
  · rename_i items _
    unfold proceed
    split
    · rfl
    · rfl
    · rfl

theorem closeTokens_ended (hidle : s.place.waiting = false) :
    s.closeTokens.place.going = false := by
  unfold RemoteStream.closeTokens
  split
  · rfl
  · rfl
  · rename_i hcreated hyielded
    cases hplace : s.place with
    | created => exact absurd hplace hcreated
    | yielded v rest => exact absurd hplace (hyielded v rest)
    | posting | reading =>
      rw [hplace] at hidle
      cases hidle
    | returned | raised message => rfl

theorem step_closed (hs : s.closed = true → s.place.going = false)
    (hst : step num maxPrestreamRetries isChat s l = some s') :
    s'.closed = true → s'.place.going = false := by
  have hopen : s.place.going = true → s.closed = true → False := by
    intro hgoing hclosed
    rw [hs hclosed] at hgoing
    cases hgoing
  cases moves_of_step hst with
  | drained => exact hs
  | start hplace =>
    rw [settle_closed]
    exact fun hclosed => (hopen (by rw [hplace]; rfl) hclosed).elim
  | @resume v rest hplace =>
    rw [settle_closed]
    intro hclosed
    have hclosed : s.closed = true := by
      unfold proceed at hclosed
      split at hclosed
      · exact hclosed
      · exact hclosed
      · exact hclosed
    exact (hopen (by rw [hplace]; rfl) hclosed).elim
  | again hended =>
    intro _
    rw [(conclude_same ..).place]
    exact hended
  | closed => exact hs
  | close hidle hclosed hresult =>
    intro _
    show Place.going (RemoteStream.place _) = false
    rw [(buildResult_same hresult).place]
    exact closeTokens_ended hidle
  | closeRaises hidle => exact fun _ => closeTokens_ended hidle
  | refused fault hplace | unreadable fault hplace | broke fault hplace =>
    rw [settle_closed, fault_closed]
    exact fun hclosed => (hopen (by rw [hplace]; rfl) hclosed).elim
  | rejected hplace =>
    rw [settle_closed, caught_closed]
    exact fun hclosed => (hopen (by rw [hplace]; rfl) hclosed).elim
  | opened read hplace | ended hplace =>
    rw [settle_closed]
    exact fun hclosed => (hopen (by rw [hplace]; rfl) hclosed).elim
  | line line hplace =>
    rw [settle_closed, receive_closed]
    exact fun hclosed => (hopen (by rw [hplace]; rfl) hclosed).elim

theorem init_reported : Reported num ({} : RemoteStream F) where
  outcome := rfl
  index := rfl
  parts := rfl
  stuck := fun h => by cases h
  ended := fun h => by cases h
  exhausted := rfl
  reports := fun r hr => by cases hr
  text := by simp

theorem run_reported {ls : List RemoteLabel}
    (h : Run (step num maxPrestreamRetries isChat) {} ls s) :
    Inv num maxPrestreamRetries isChat s ∧ Reported num s ∧
      (s.closed = true → s.place.going = false) :=
  h.invariant (P := fun s => Inv num maxPrestreamRetries isChat s ∧ Reported num s ∧
      (s.closed = true → s.place.going = false))
    (fun _ _ _ hs hst =>
      ⟨step_inv hs.1 hst, step_reported hs.1 hs.2.1 hst, step_closed hs.2.2 hst⟩)
    ⟨init_inv, init_reported, fun h => by cases h⟩

/-- An attempt that was just posted stands where the first one of a generation does. -/
theorem alike_first (hinv : Inv num maxPrestreamRetries isChat s) (hs : Reported num s)
    (hclosed : s.closed = true → s.place.going = false) (hplace : s.place = .posting) :
    Alike s ({} : RemoteStream F).post.settle := by
  have hgoing : s.place.going = true := by rw [hplace]; rfl
  have hpending : Pending num { s with place := .posting } := hs.pending hgoing (by simp)
  obtain ⟨hnone, hlines, -⟩ := hinv.posting hplace
  have hparts : s.parts = [] := by
    rw [hs.parts, hinv.tokens, hlines]
    rfl
  refine ⟨hplace.symm, hnone.symm, ?_, hparts.symm, hpending.exhausted.symm, ?_,
    hlines.symm, ?_, ?_, rfl⟩
  · rw [hs.index, hparts]
    rfl
  · cases hc : s.closed with
    | false => rfl
    | true =>
      rw [hclosed hc] at hgoing
      cases hgoing
  · rw [show s.result = none from hpending.result]
    rfl
  · intro _
    rw [show s.result = none from hpending.result]
    rfl

end RemoteStream

/-! ## What lines can record -/

/-- The first count of a usage is written before the second, and the finish reasons that are known
are two. -/
structure Writes.Sound (w : Writes) : Prop where
  counts : w.completion.isSome = true → w.prompt.isSome = true
  finish : w.finish = none ∨ w.finish = some .stop ∨ w.finish = some .length

section

variable {F : Type} (num : Numbers F)

theorem Writes.sound_empty : ({} : Writes).Sound where
  counts := fun h => by cases h
  finish := .inl rfl

theorem Writes.Sound.seq {w w' : Writes} (h : w.Sound) (h' : w'.Sound) : (w.seq w').Sound where
  counts := by
    intro hsome
    simp only [Writes.seq, Option.isSome_or, Bool.or_eq_true] at hsome ⊢
    exact hsome.imp h'.counts h.counts
  finish := by
    rcases h'.finish with hnone | hstop | hlength
    · rw [Writes.seq, hnone]
      exact h.finish
    · exact .inr (.inl (by rw [Writes.seq, hstop]; rfl))
    · exact .inr (.inr (by rw [Writes.seq, hlength]; rfl))

theorem finishOf_cases (reason : Value F) :
    finishOf reason = none ∨ finishOf reason = some .stop ∨ finishOf reason = some .length := by
  unfold finishOf
  split
  · split
    · exact .inr (.inr rfl)
    · split
      · exact .inr (.inl rfl)
      · exact .inl rfl
  · exact .inl rfl

theorem chunkFinish_cases (obj : Value F) : chunkFinish num obj = none ∨
    chunkFinish num obj = some .stop ∨ chunkFinish num obj = some .length := by
  unfold chunkFinish
  split
  · split
    · exact finishOf_cases _
    · exact .inl rfl
  · exact .inl rfl

theorem usageWrites_sound (usage : Value F) : (usageWrites num usage).Sound := by
  unfold usageWrites
  split
  · split
    · exact Writes.sound_empty
    · exact ⟨fun _ => rfl, .inl rfl⟩
  · exact Writes.sound_empty

theorem lineWrites_sound (line : List Char) : (lineWrites num line).Sound := by
  unfold lineWrites
  split
  · rename_i obj _
    unfold chunkWrites
    split
    · exact Writes.sound_empty
    · rename_i usage _
      split
      · exact usageWrites_sound num usage
      · exact ⟨(usageWrites_sound num usage).counts, chunkFinish_cases num obj⟩
  · exact Writes.sound_empty

theorem linesWrites_sound (lines : List (List Char)) : (linesWrites num lines).Sound := by
  induction lines using List.reverseRecOn with
  | nil => exact Writes.sound_empty
  | append_singleton lines line ih =>
    rw [linesWrites_concat]
    exact ih.seq (lineWrites_sound num line)

end

namespace RemoteStream

variable {F : Type}

/-- What the result of a generation takes from the attempts before the last one: nothing, if the
last one has a finish reason and a usage of its own, or if there was none before, or no other one
than is assumed without it. -/
def LastAlone (num : Numbers F) (isChat : Bool) (t : RemoteStream F) : Prop :=
  let last := linesWrites num t.lines
  let before := linesWrites num t.before
  (t.place.isReturned = true → last.finish.isSome = true ∨ before.finish ≠ some .length) ∧
  (last.completion.isSome = true ∨ before.completion = none ∨
    (last.prompt.or before.prompt).getD 0 = 0 ∧
      before.completion = some ((t.lines.flatMap (lineTexts num isChat)).length : Int))

theorem finish_eq_iff {last before : Writes} (hbefore : before.Sound) (n n' : Nat) :
    (last.apply (before.apply { upstreamAttempts := n })).finish =
        (last.apply (Writes.apply {} { upstreamAttempts := n' })).finish ↔
      last.finish.isSome = true ∨ before.finish ≠ some .length := by
  cases hlast : last.finish with
  | some finish => simp [Writes.apply, hlast]
  | none =>
    rcases hbefore.finish with h | h | h
    · simp [Writes.apply, hlast, h]
    · simp [Writes.apply, hlast, h]
    · simp [Writes.apply, hlast, h]

theorem usage_eq_iff {last before : Writes} (hlast : last.Sound) (hbefore : before.Sound)
    (n n' index : Nat) :
    ((if (last.apply (before.apply { upstreamAttempts := n })).usageSeen then
          (last.apply (before.apply { upstreamAttempts := n })).promptTokens else 0) =
        (if (last.apply (Writes.apply {} { upstreamAttempts := n' })).usageSeen then
          (last.apply (Writes.apply {} { upstreamAttempts := n' })).promptTokens else 0) ∧
      (if (last.apply (before.apply { upstreamAttempts := n })).usageSeen then
          (last.apply (before.apply { upstreamAttempts := n })).completionTokens
            else (index : Int)) =
        (if (last.apply (Writes.apply {} { upstreamAttempts := n' })).usageSeen then
          (last.apply (Writes.apply {} { upstreamAttempts := n' })).completionTokens
            else (index : Int))) ↔
      (last.completion.isSome = true ∨ before.completion = none ∨
        (last.prompt.or before.prompt).getD 0 = 0 ∧ before.completion = some (index : Int)) := by
  cases hcompletion : last.completion with
  | some completion =>
    have hprompt := hlast.counts (by rw [hcompletion]; rfl)
    obtain ⟨prompt, hprompt⟩ := Option.isSome_iff_exists.mp hprompt
    simp [Writes.apply, hcompletion, hprompt]
  | none =>
    cases hbeforeCompletion : before.completion with
    | none => simp [Writes.apply, hcompletion, hbeforeCompletion]
    | some completion =>
      have hprompt := hbefore.counts (by rw [hbeforeCompletion]; rfl)
      obtain ⟨prompt, hprompt⟩ := Option.isSome_iff_exists.mp hprompt
      cases hlastPrompt : last.prompt with
      | none => simp [Writes.apply, hcompletion, hbeforeCompletion, hprompt, hlastPrompt]
      | some prompt' => simp [Writes.apply, hcompletion, hbeforeCompletion, hlastPrompt]

/-- For every run of a generation, whatever its attempts have met: what its result says of the
finish reason and the usage is what a generation says whose first attempt is the last one of it
(with no retry left), if and only if nothing that an earlier attempt has recorded shows. -/
theorem last_attempt_iff (num : Numbers F) (maxPrestreamRetries : Nat) (isChat : Bool)
    {earlier last : List RemoteLabel} {s t : RemoteStream F} {r : RemoteResult}
    (hearlier : Run (step num maxPrestreamRetries isChat) {} earlier s)
      (hplace : s.place = .posting) (hlast : Run (step num maxPrestreamRetries isChat) s last t)
      (hsame : t.outcome.upstreamAttempts = s.outcome.upstreamAttempts)
      (hresult : t.result = some r) :
    ∃ t' r', Run (step num 0 isChat) {} (.anext :: last) t' ∧ t'.result = some r' ∧
      (r.finishReason = r'.finishReason ∧ r.promptTokens = r'.promptTokens ∧
          r.completionTokens = r'.completionTokens ↔ LastAlone num isChat t) := by
  obtain ⟨hinv, hs, hclosed⟩ := run_reported hearlier
  obtain ⟨-, -, hstarted⟩ := hinv.posting hplace
  obtain ⟨t', hrun', halike⟩ :=
      (alike_first hinv hs hclosed hplace).run hinv hs hstarted hlast hsame
  have hfirst : Run (step num 0 isChat) {} (.anext :: last) t' := .cons rfl hrun'
  obtain ⟨hinvt, ht, -⟩ := run_reported (hearlier.trans hlast)
  obtain ⟨-, ht', -⟩ := run_reported hfirst
  obtain ⟨r', hresult'⟩ : ∃ r', t'.result = some r' := by
    rw [← Option.isSome_iff_exists, halike.result, hresult]
    rfl
  refine ⟨t', r', hfirst, hresult', ?_⟩
  obtain ⟨hfinish, hprompt, hcompletion⟩ := ht.reports r hresult
  obtain ⟨hfinish', hprompt', hcompletion'⟩ := ht'.reports r' hresult'
  have hcount : t.index = (t.lines.flatMap (lineTexts num isChat)).length := by
    rw [ht.index, ht.parts, hinvt.tokens]
  have houtcome' : t'.outcome = (linesWrites num t.lines).apply
      (Writes.apply {} { upstreamAttempts := t'.outcome.upstreamAttempts }) := by
    have h := ht'.outcome
    rw [halike.lines, halike.first] at h
    exact h
  have husage := usage_eq_iff (linesWrites_sound num t.lines) (linesWrites_sound num t.before)
    t.outcome.upstreamAttempts t'.outcome.upstreamAttempts t.index
  have hreason : t.outcome.finish = t'.outcome.finish ↔
      (linesWrites num t.lines).finish.isSome = true ∨
        (linesWrites num t.before).finish ≠ some .length := by
    rw [ht.outcome, houtcome']
    exact finish_eq_iff (linesWrites_sound num t.before) _ _
  rw [← ht.outcome, ← houtcome', ← hprompt, ← hcompletion] at husage
  rw [halike.index] at hcompletion'
  rw [← hprompt', ← hcompletion', hcount] at husage
  have hends : r.finishReason = r'.finishReason ↔ (t.place.isReturned = true →
      (linesWrites num t.lines).finish.isSome = true ∨
        (linesWrites num t.before).finish ≠ some .length) := by
    cases hreturned : t.place.isReturned with
    | true =>
      rw [hfinish hreturned, hfinish' (by rw [halike.place]; exact hreturned), hreason]
      simp
    | false =>
      have hsameFinish := halike.finish hreturned
      rw [hresult, hresult'] at hsameFinish
      simp only [Option.map_some, Option.some.injEq] at hsameFinish
      simp [hsameFinish]
  rw [hends, husage]
  exact Iff.rfl

/-- A chunk that ends the text for its length and says the usage, and a break right after it. -/
def brokenAttempt : List RemoteLabel :=
  [.anext, .replied 200 none,
    .line ("data: \x7b\"choices\": [\x7b\"delta\": \x7b\x7d, \"finish_reason\": \"length\"\x7d], " ++
      "\"usage\": \x7b\"prompt_tokens\": 5, \"completion_tokens\": 7\x7d\x7d").toList,
    .broke (.transport "peer closed connection")]

/-- A token and the end marker. -/
def bareAttempt : List RemoteLabel :=
  [.replied 200 none,
    .line "data: \x7b\"choices\": [\x7b\"delta\": \x7b\"content\": \"a\"\x7d\x7d]\x7d".toList,
    .anext, .line "data: [DONE]".toList]

/-- The same, with a finish reason and a usage. -/
def fullAttempt : List RemoteLabel :=
  [.replied 200 none,
    .line ("data: \x7b\"choices\": [\x7b\"delta\": \x7b\"content\": \"a\"\x7d, \"finish_reason\": " ++
      "\"stop\"\x7d], \"usage\": \x7b\"prompt_tokens\": 3, \"completion_tokens\": 1\x7d\x7d").toList,
    .anext, .line "data: [DONE]".toList]

structure Report where
  attempts : Nat
  result : Option (FinishReason × Int × Int)
  posting : Bool := false
  /-- the last attempt has said its finish reason and its usage -/
  full : Bool := false
  deriving DecidableEq

def report (num : Numbers F) (s : RemoteStream F) : Report where
  attempts := s.outcome.upstreamAttempts
  result := s.result.map fun r => (r.finishReason, r.promptTokens, r.completionTokens)
  posting := match s.place with
    | .posting => true
    | _ => false
  full := (linesWrites num s.lines).finish.isSome && (linesWrites num s.lines).completion.isSome

/-- The second attempt says all of itself, and the result is its own. -/
theorem last_attempt_iff_full :
    ∃ t' r', Run (step Numbers.exact 0 true) {} (.anext :: fullAttempt) t' ∧ t'.result = some r' ∧
      (r'.finishReason, r'.promptTokens, r'.completionTokens) = (.stop, 3, 1) := by
  have hexec : (exec (step Numbers.exact 1 true) {} brokenAttempt).map (fun s =>
      (report Numbers.exact s, (exec (step Numbers.exact 1 true) s fullAttempt).map
        (report Numbers.exact))) =
      some (⟨2, none, true, false⟩, some ⟨2, some (.stop, 3, 1), false, true⟩) := by
    decide +kernel
  obtain ⟨s, hearlier, hs⟩ := run_of_exec_map hexec
  obtain ⟨hreport, ht⟩ := Prod.mk.inj hs
  obtain ⟨t, hlast, ht⟩ := run_of_exec_map ht
  simp only [report, Report.mk.injEq, Option.map_eq_some_iff, Bool.and_eq_true] at hreport ht
  obtain ⟨hattempts, ⟨r, hresult, hr⟩, -, hfinish, husage⟩ := ht
  have hplace : s.place = .posting := by
    obtain ⟨-, -, hposting, -⟩ := hreport
    split at hposting
    · assumption
    · cases hposting
  obtain ⟨t', r', hrun, hresult', hiff⟩ :=
    last_attempt_iff Numbers.exact 1 true hearlier hplace hlast
    (by rw [hattempts, hreport.1]) hresult
  obtain ⟨hfinish', hprompt', hcompletion'⟩ := hiff.mpr ⟨fun _ => .inl hfinish, .inl husage⟩
  exact ⟨t', r', hrun, hresult', by rw [← hfinish', ← hprompt', ← hcompletion']; exact hr⟩

/-- The second attempt says nothing of its finish reason and its usage: the result has those of the
first one, from which no token was taken. -/
theorem earlier_attempt_reported :
    (∃ t, Run (step Numbers.exact 1 true) {} (brokenAttempt ++ bareAttempt) t ∧
      (report Numbers.exact t).result = some (.length, 5, 7)) ∧
    ∃ t, Run (step Numbers.exact 0 true) {} (.anext :: bareAttempt) t ∧
      (report Numbers.exact t).result = some (.stop, 0, 1) :=
  ⟨run_of_exec_map (by decide +kernel), run_of_exec_map (by decide +kernel)⟩

end RemoteStream
end InferenceEngine
