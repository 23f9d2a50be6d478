import InferenceEngine.Inference.RemoteUsage

/-!
# Inference.RemoteEnd

How a remote generation ends on a 200 reply whose body is any sequence of lines. The parser drops
what it does not know, an error object among it, and the finish reason is `STOP` unless a line says
otherwise: a body that was cut short or that reports a failure ends as one that is complete.

* `drain`: the generation of a consumer that asks for the next token at once.
* `drain_ends`: it ends normally unless a chunk is malformed or a text is no string.
* `end_honest_iff`: when that is what the upstream has said.
-/

namespace InferenceEngine

open Lts Json Py

section

variable {F : Type} (num : Numbers F)

/-- The finish reason of a chunk is not `null`. -/
def hasFinish (obj : Value F) : Bool :=
  match firstChoice num obj with
  | .ok (some choice) =>
    match get "finish_reason" choice with
    | .ok .null => false
    | .ok _ => true
    | .error _ => false
  | _ => false

/-- The upstream has signalled its end. -/
def signalled (lines : List (List Char)) : Bool :=
  lines.any fun line =>
    match (sseData num line : SseData F) with
    | .done => true
    | .chunk obj => hasFinish num obj
    | .other => false

/-- A line carries an error object. -/
def reportsError (lines : List (List Char)) : Bool :=
  lines.any fun line =>
    match (sseData num line : SseData F) with
    | .chunk (.obj items) => isObj (field "error" items)
    | _ => false

/-- A chunk before the end marker is not of the shape that is expected. -/
def malformed (isChat : Bool) : List (List Char) → Bool
  | [] => false
  | line :: lines =>
    match (sseData num line : SseData F) with
    | .done => false
    | .chunk obj => !readable num isChat obj || malformed isChat lines
    | .other => malformed isChat lines

/-- The texts that are read are strings. -/
def textual (isChat : Bool) : List (List Char) → Bool
  | [] => true
  | line :: lines =>
    match (sseData num line : SseData F) with
    | .done => true
    | .chunk obj =>
      !readable num isChat obj ||
        (RemoteStream.lineTexts num isChat line).all isStr && textual isChat lines
    | .other => textual isChat lines

end

namespace RemoteStream

variable {F : Type} (num : Numbers F) (maxPrestreamRetries : Nat) (isChat : Bool)

/-- Something comes from upstream, and the consumer asks for the next token at once. -/
def hear (s : RemoteStream F) (l : RemoteLabel) : RemoteStream F :=
  match step num maxPrestreamRetries isChat s l with
  | none => s
  | some s =>
    match s.place with
    | .yielded _ _ => s.anext.getD s
    | _ => s

/-- A body of these lines. -/
def body (lines : List (List Char)) : List RemoteLabel := lines.map .line ++ [.ended]

/-- A 200 reply with these lines. -/
def drain (lines : List (List Char)) : RemoteStream F :=
  (body lines).foldl (hear num maxPrestreamRetries isChat)
    (hear num maxPrestreamRetries isChat ({} : RemoteStream F).post.settle (.replied 200 none))

theorem hear_run (s : RemoteStream F) (l : RemoteLabel) :
    ∃ ls, Run (step num maxPrestreamRetries isChat) s ls
      (hear num maxPrestreamRetries isChat s l) := by
  unfold hear
  split
  · exact ⟨[], .refl⟩
  · rename_i s' hst
    split
    · cases hnext : s'.anext with
      | none => exact ⟨[l], .single hst⟩
      | some t => exact ⟨[l, .anext], .cons hst (.single hnext)⟩
    · exact ⟨[l], .single hst⟩

theorem drain_run (lines : List (List Char)) :
    ∃ ls, Run (step num maxPrestreamRetries isChat) {} ls
      (drain num maxPrestreamRetries isChat lines) := by
  have hfold : ∀ (labels : List RemoteLabel) (s : RemoteStream F),
      ∃ ls, Run (step num maxPrestreamRetries isChat) s ls
        (labels.foldl (hear num maxPrestreamRetries isChat) s) := by
    intro labels
    induction labels with
    | nil => exact fun s => ⟨[], .refl⟩
    | cons l labels ih =>
      intro s
      obtain ⟨ls, hls⟩ := hear_run num maxPrestreamRetries isChat s l
      obtain ⟨ms, hms⟩ := ih (hear num maxPrestreamRetries isChat s l)
      exact ⟨ls ++ ms, hls.trans hms⟩
  obtain ⟨ls, hls⟩ := hfold (.replied 200 none :: body lines) ({} : RemoteStream F).post.settle
  exact ⟨.anext :: ls, .cons rfl hls⟩

variable {num maxPrestreamRetries isChat} {s : RemoteStream F}

/-- Waiting for a line, with nothing reported yet. -/
structure AtLine (s : RemoteStream F) : Prop where
  place : s.place = .reading
  result : s.result = none
  exhausted : s.exhausted = false
  finish : s.outcome.finish = .stop ∨ s.outcome.finish = .length

/-- How the generation has ended. -/
inductive EndedAs (s : RemoteStream F) : Bool → Bool → Prop where
  | normal {r : RemoteResult} (hanswer : s.answer = some .stopAsyncIteration)
      (hresult : s.result = some r) (hfinish : r.finishReason = .stop ∨ r.finishReason = .length) :
      EndedAs s true false
  | failed {r : RemoteResult} {message : String}
      (hanswer : s.answer = some (.raised (.generationFailed message)))
        (hresult : s.result = some r)
      (hfinish : r.finishReason = .error) : EndedAs s true true
  /-- the parts cannot be joined -/
  | broken {bad : Bool} {message : String} (hanswer : s.answer = some (.raised (.other message)))
      (hresult : s.result = none) : EndedAs s false bad

theorem conclude_ends (hresult : s.result = none) (finish : FinishReason) (answer : Answer F) :
    (s.parts.all isStr = true ∧ (s.conclude finish answer).answer = some answer ∧
      ∃ r, (s.conclude finish answer).result = some r ∧ r.finishReason = finish) ∨
    s.parts.all isStr = false ∧ (s.conclude finish answer).result = none ∧
      ∃ message, (s.conclude finish answer).answer = some (.raised (.other message)) := by
  have hjoin := join_isOk 0 s.parts
  unfold conclude
  rcases buildResult_cases s finish hresult with ⟨message, herror, hbuild⟩ | ⟨text, hok, hbuild⟩
  · rw [herror] at hjoin
    rw [hbuild]
    exact .inr ⟨hjoin.symm, hresult, message, rfl⟩
  · rw [hok] at hjoin
    rw [hbuild]
    exact .inl ⟨hjoin.symm, rfl, _, rfl, rfl⟩

theorem ends_returned (hplace : s.place = .returned) (hresult : s.result = none)
    (hfinish : s.outcome.finish = .stop ∨ s.outcome.finish = .length) :
    EndedAs s.settle (s.parts.all isStr) false := by
  have hsettle : s.settle = s.conclude s.outcome.finish .stopAsyncIteration := by
    unfold settle
    rw [hplace]
  rw [hsettle]
  rcases conclude_ends hresult s.outcome.finish .stopAsyncIteration with
    ⟨hall, hanswer, r, hr, heq⟩ | ⟨hall, hnone, message, hanswer⟩
  · rw [hall]
    exact .normal hanswer hr (by rw [heq]; exact hfinish)
  · rw [hall]
    exact .broken hanswer hnone

theorem ends_raised {message : String} (hplace : s.place = .raised message)
    (hresult : s.result = none) :
    EndedAs s.settle (s.parts.all isStr) true := by
  have hsettle : s.settle = s.conclude .error (.raised (.generationFailed message)) := by
    unfold settle
    rw [hplace]
  rw [hsettle]
  rcases conclude_ends hresult .error (.raised (.generationFailed message)) with
    ⟨hall, hanswer, r, hr, heq⟩ | ⟨hall, hnone, message', hanswer⟩
  · rw [hall]
    exact .failed hanswer hr heq
  · rw [hall]
    exact .broken hanswer hnone

theorem hear_eq_settle {l : RemoteLabel} {u : RemoteStream F}
    (hst : step num maxPrestreamRetries isChat s l = some u.settle)
    (hyielded : ∀ v rest, u.place ≠ .yielded v rest) :
    hear num maxPrestreamRetries isChat s l = u.settle := by
  unfold hear
  rw [hst]
  dsimp only
  split
  · rename_i v rest h
    rw [(settle_same u).place] at h
    exact absurd h (hyielded v rest)
  · rfl

theorem hear_eq_next {l : RemoteLabel} {u : RemoteStream F} {v : Value F}
    (hst : step num maxPrestreamRetries isChat s l = some u.settle)
      (hplace : u.place = .yielded v []) (hexhausted : u.exhausted = false) :
    hear num maxPrestreamRetries isChat s l =
      { u with index := u.index + 1, parts := u.parts ++ [v], place := .reading, answer := none } := by
  have hsettle : u.settle =
      { u with index := u.index + 1, parts := u.parts ++ [v], answer := some (.chunk v u.index) } := by
    unfold settle
    rw [hplace]
  unfold hear
  rw [hst, hsettle]
  simp [hplace, anext, Place.waiting, hexhausted, proceed, settle]

variable (num maxPrestreamRetries isChat) in
theorem AtLine.hear (h : AtLine s) (line : List Char) :
    let t := RemoteStream.hear num maxPrestreamRetries isChat s (.line line)
    (∃ e, (parseSseLine num isChat line {}).1 = .error e ∧ t.place.going = false ∧
      EndedAs t (s.parts.all isStr) true) ∨
    ((parseSseLine num isChat line {}).1 = .ok [.done] ∧ t.place.going = false ∧
      EndedAs t (s.parts.all isStr) false) ∨
    ((parseSseLine num isChat line {}).1 = .ok [] ∨
        ∃ v, (parseSseLine num isChat line {}).1 = .ok [.text v]) ∧
      AtLine t ∧ t.parts = s.parts ++ lineTexts num isChat line := by
  have hparse := parseSseLine_eq num isChat line s.outcome
  have hst : step num maxPrestreamRetries isChat s (.line line) =
      some (s.receive num isChat line).settle := by
    simp only [step, h.place]
  have hfinish : ((lineWrites num line).apply s.outcome).finish = .stop ∨
      ((lineWrites num line).apply s.outcome).finish = .length := by
    rcases (lineWrites_sound num line).finish with hw | hw | hw
    · simpa [Writes.apply, hw] using h.finish
    · simp [Writes.apply, hw]
    · simp [Writes.apply, hw]
  intro t
  unfold RemoteStream.receive at hst
  rw [hparse] at hst
  rcases parseSseLine_cases num isChat line {} with ⟨e, hresult⟩ | hresult | hresult | ⟨v, hresult⟩
  · rw [hresult] at hst
    have ht : t = _ := hear_eq_settle hst (by simp [raise])
    refine .inl ⟨e, hresult, ?_, ?_⟩
    · rw [ht, (settle_same _).place]
      rfl
    · rw [ht]
      exact ends_raised rfl h.result
  · rw [hresult] at hst
    have ht : t = _ := hear_eq_settle hst (by simp [proceed])
    refine .inr (.inl ⟨hresult, ?_, ?_⟩)
    · rw [ht, (settle_same _).place]
      rfl
    · rw [ht]
      exact ends_returned rfl h.result hfinish
  · rw [hresult] at hst
    have ht : t = _ := hear_eq_settle hst (by simp [proceed])
    refine .inr (.inr ⟨.inl hresult, ?_, ?_⟩)
    · rw [ht]
      exact ⟨rfl, h.result, h.exhausted, hfinish⟩
    · rw [ht]
      simp [proceed, settle, lineTexts, hresult]
  · rw [hresult] at hst
    have ht : t = _ := hear_eq_next hst rfl h.exhausted
    refine .inr (.inr ⟨.inr ⟨v, hresult⟩, ?_, ?_⟩)
    · rw [ht]
      exact ⟨rfl, h.result, h.exhausted, hfinish⟩
    · rw [ht]
      simp [proceed, lineTexts, hresult]

theorem foldl_hear_ended (hended : s.place.going = false) (lines : List (List Char)) :
    (body lines).foldl (RemoteStream.hear num maxPrestreamRetries isChat) s = s := by
  have hdeaf : ∀ l ∈ body lines, RemoteStream.hear num maxPrestreamRetries isChat s l = s := by
    intro l hl
    have hreading : s.place ≠ .reading := by
      intro h
      rw [h] at hended
      cases hended
    have hst : step num maxPrestreamRetries isChat s l = none := by
      rcases List.mem_append.mp hl with hl | hl
      · obtain ⟨line, -, rfl⟩ := List.mem_map.mp hl
        simp only [step]
      · rw [List.mem_singleton.mp hl]
        simp only [step]
    unfold RemoteStream.hear
    rw [hst]
  generalize body lines = labels at hdeaf ⊢
  induction labels with
  | nil => rfl
  | cons l labels ih =>
    rw [List.foldl_cons, hdeaf l (List.mem_cons_self ..)]
    exact ih fun l' hl' => hdeaf l' (List.mem_cons_of_mem l hl')

theorem AtLine.body (h : AtLine s) (lines : List (List Char)) :
    EndedAs ((body lines).foldl (RemoteStream.hear num maxPrestreamRetries isChat) s)
      (s.parts.all isStr && textual num isChat lines) (malformed num isChat lines) := by
  induction lines generalizing s with
  | nil =>
    have hst : step num maxPrestreamRetries isChat s .ended =
        some { s with place := .returned }.settle := by
      simp only [step, h.place]
    have ht : (RemoteStream.body []).foldl
        (RemoteStream.hear num maxPrestreamRetries isChat) s = _ :=
      hear_eq_settle hst (by simp)
    rw [ht, textual, Bool.and_true]
    exact ends_returned rfl h.result h.finish
  | cons line lines ih =>
    have hcons : (RemoteStream.body (line :: lines)).foldl
        (RemoteStream.hear num maxPrestreamRetries isChat) s =
        (RemoteStream.body lines).foldl (RemoteStream.hear num maxPrestreamRetries isChat)
          (RemoteStream.hear num maxPrestreamRetries isChat s (.line line)) := rfl
    have hheard := h.hear num maxPrestreamRetries isChat line
    have hgone : ∀ textual bad,
        (RemoteStream.hear num maxPrestreamRetries isChat s (.line line)).place.going =
        false → EndedAs (RemoteStream.hear num maxPrestreamRetries isChat s
          (.line line)) textual bad →
        EndedAs ((RemoteStream.body lines).foldl (RemoteStream.hear num maxPrestreamRetries isChat)
          (RemoteStream.hear num maxPrestreamRetries isChat s (.line line))) textual bad := by
      intro textual bad hended hends
      rw [foldl_hear_ended hended]
      exact hends
    rw [hcons, textual, malformed]
    cases hdata : (sseData num line : SseData F) with
    | other =>
      have hparse : (parseSseLine num isChat line {}).1 = .ok [] := by
        simp only [parseSseLine, hdata]
      simp only [hparse] at hheard
      rcases hheard with ⟨e, herror, -⟩ | ⟨hdone, -⟩ | ⟨-, hline, hparts⟩
      · cases herror
      · cases hdone
      · have ih := ih hline
        rw [hparts, lineTexts, hparse] at ih
        simpa using ih
    | done =>
      have hparse : (parseSseLine num isChat line {}).1 = .ok [.done] := by
        simp only [parseSseLine, hdata]
      simp only [hparse] at hheard
      rcases hheard with ⟨e, herror, -⟩ | ⟨-, hended, hends⟩ | ⟨hnone | ⟨v, htext⟩, -⟩
      · cases herror
      · simpa using hgone _ _ hended hends
      · cases hnone
      · cases htext
    | chunk obj =>
      have hparse : (parseSseLine num isChat line {}).1 = (parseChunk num isChat obj {}).1 := by
        simp only [parseSseLine, hdata]
      have hshape := parseChunk_isOk num isChat obj {}
      rw [hparse] at hheard
      rcases hheard with ⟨e, herror, hended, hends⟩ | ⟨hdone, -⟩ | ⟨hok, hline, hparts⟩
      · rw [herror] at hshape
        have hshape : readable num isChat obj = false := hshape.symm
        simpa [hshape] using hgone _ _ hended hends
      · rcases parseChunk_cases num isChat obj {} with ⟨e, h⟩ | h | ⟨v, h⟩
        · rw [h] at hdone
          cases hdone
        · rw [h] at hdone
          cases hdone
        · rw [h] at hdone
          cases hdone
      · have hshape : readable num isChat obj = true := by
          rcases hok with hnone | ⟨v, htext⟩
          · rw [hnone] at hshape
            exact hshape.symm
          · rw [htext] at hshape
            exact hshape.symm
        have ih := ih hline
        rw [hparts, List.all_append, Bool.and_assoc] at ih
        simpa [hshape] using ih

/-- How a generation ends on a body: normally, unless a chunk is malformed or a text is no
string. -/
theorem drain_ends (num : Numbers F) (maxPrestreamRetries : Nat) (isChat : Bool)
    (lines : List (List Char)) :
    EndedAs (drain num maxPrestreamRetries isChat lines) (textual num isChat lines)
      (malformed num isChat lines) := by
  have hst : step num maxPrestreamRetries isChat ({} : RemoteStream F).post.settle
      (.replied 200 none) =
      some { ({} : RemoteStream F).post.settle with place := .reading }.settle := rfl
  have hopened : hear num maxPrestreamRetries isChat ({} : RemoteStream F).post.settle
      (.replied 200 none) = _ := hear_eq_settle hst (by simp)
  unfold drain
  rw [hopened]
  have hline : AtLine { ({} : RemoteStream F).post.settle with place := .reading }.settle :=
    ⟨rfl, rfl, rfl, .inl rfl⟩
  exact hline.body lines

/-- A generation ends as the upstream says: normally only if it has signalled its end and reported
no error, and with an error if it has reported one. -/
structure Honest (num : Numbers F) (lines : List (List Char)) (s : RemoteStream F) : Prop where
  normal : ∀ r, s.answer = some .stopAsyncIteration → s.result = some r →
    r.finishReason = .stop ∨ r.finishReason = .length →
    signalled num lines = true ∧ reportsError num lines = false
  error : reportsError num lines = true →
    (∃ message, s.answer = some (.raised (.generationFailed message))) ∧
      ∃ r, s.result = some r ∧ r.finishReason = .error

/-- For every body of a 200 reply, the generation ends as the upstream says if and only if a chunk
that is read is malformed, after nothing but strings, so that it fails in any case; or no error was
reported, and either the end was signalled or a text is no string, so that there is no result. -/
theorem end_honest_iff (num : Numbers F) (maxPrestreamRetries : Nat) (isChat : Bool)
    (lines : List (List Char)) :
    Honest num lines (drain num maxPrestreamRetries isChat lines) ↔
      (textual num isChat lines = true ∧ malformed num isChat lines = true) ∨
      reportsError num lines = false ∧
        (signalled num lines = true ∨ textual num isChat lines = false) := by
  have hends := drain_ends num maxPrestreamRetries isChat lines
  generalize textual num isChat lines = strings at hends ⊢
  generalize malformed num isChat lines = bad at hends ⊢
  cases hends with
  | @normal r hanswer hresult hfinish =>
    constructor
    · intro h
      obtain ⟨hsignalled, hnone⟩ := h.normal r hanswer hresult hfinish
      exact .inr ⟨hnone, .inl hsignalled⟩
    · rintro (⟨-, hbad⟩ | ⟨hnone, hsignalled | hstrings⟩)
      · cases hbad
      · refine ⟨fun _ _ _ _ => ⟨hsignalled, hnone⟩, fun herror => ?_⟩
        rw [hnone] at herror
        cases herror
      · cases hstrings
  | @failed r message hanswer hresult hfinish =>
    refine iff_of_true ⟨fun r' hstop => ?_, fun _ => ⟨⟨message, hanswer⟩, r, hresult, hfinish⟩⟩
      (.inl ⟨rfl, rfl⟩)
    rw [hanswer] at hstop
    cases hstop
  | @broken bad message hanswer hresult =>
    constructor
    · intro h
      refine .inr ⟨?_, .inr rfl⟩
      by_contra herror
      obtain ⟨⟨message', hfailed⟩, -⟩ := h.error (by simpa using herror)
      rw [hanswer] at hfailed
      cases hfailed
    · rintro (⟨hstrings, -⟩ | ⟨hnone, -⟩)
      · cases hstrings
      · refine ⟨fun r hstop => ?_, fun herror => ?_⟩
        · rw [hanswer] at hstop
          cases hstop
        · rw [hnone] at herror
          cases herror

/-- What the OpenAI edge sends when a generation fails after its headers. -/
def errorBody : List (List Char) :=
  [("data: \x7b\"error\": \x7b\"message\": \"generation failed\", " ++
      "\"type\": \"server_error\", \"code\": null\x7d\x7d").toList,
    [], "data: [DONE]".toList, []]

/-- A normal end without the signal, or with an error object in the body, is not honest. -/
theorem not_honest_of_normal {lines : List (List Char)}
    (hstrings : textual num isChat lines = true) (hgood : malformed num isChat lines = false)
    (hsaid : ¬(signalled num lines = true ∧ reportsError num lines = false)) :
    ¬ Honest num lines (drain num maxPrestreamRetries isChat lines) := by
  intro h
  have hends := drain_ends num maxPrestreamRetries isChat lines
  rw [hstrings, hgood] at hends
  cases hends with
  | normal hanswer hresult hfinish => exact hsaid (h.normal _ hanswer hresult hfinish)

/-- The failure of one engine is a normal end of another one that proxies to it. -/
theorem error_frame_dropped :
    ¬ Honest Numbers.exact errorBody (drain Numbers.exact 0 true errorBody) ∧
      (drain Numbers.exact 0 true errorBody).result.map (·.finishReason) = some .stop ∧
      -- and so is a body that was cut short
      ¬ Honest Numbers.exact [] (drain Numbers.exact 0 true []) := by
  refine ⟨not_honest_of_normal ?_ ?_ ?_, ?_, not_honest_of_normal rfl rfl ?_⟩
  · decide +kernel
  · decide +kernel
  · decide +kernel
  · decide +kernel
  · simp [signalled]

end RemoteStream
end InferenceEngine
