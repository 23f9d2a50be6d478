import InferenceEngine.Edge.Agreement
import InferenceEngine.Lib.JsonLex

/-!
# Edge.Proxy

One engine that proxies to another: the text that `_sse` of the OpenAI edge sends is split into
lines, as `aiter_lines` of the HTTP client does it, and read by the parser of the remote backends.
The encoder escapes control characters and leaves the others as they are, the client splits at every
line boundary of Unicode, and the parser drops what it does not understand: a token with one of the
three boundaries that are no control characters is lost.

The text is a list of characters; that UTF-8 is encoded and decoded in between plays no part.

* `parseSseLine_chunk`: a chunk is read back if its line stays in one piece.
* `readLines_tornToken`: nothing is taken from a token that is torn.
* `relayed_iff`: when the other engine gets what was sent.
-/

namespace InferenceEngine

open Json Py

/-! ## What is read -/

inductive ReadEnd where
  | done
  /-- no line is left -/
  | exhausted
  | raised (message : String)
  deriving DecidableEq, Repr

structure Reading (F : Type) where
  texts : List (Value F)
  ended : ReadEnd
  outcome : RemoteOutcome

section Read

variable {F : Type} (num : Numbers F)

/-- The items of a line, and what comes after it. -/
def readItems (outcome : RemoteOutcome) (next : Reading F) : List (SseItem F) → Reading F
  | [] => next
  | .done :: _ => ⟨[], .done, outcome⟩
  | .text v :: items =>
    let rest := readItems outcome next items
    { rest with texts := v :: rest.texts }

/-- The loops of `_stream_tokens` over the lines of a body. -/
def readLines : List (List Char) → RemoteOutcome → Reading F
  | [], outcome => ⟨[], .exhausted, outcome⟩
  | line :: lines, outcome =>
    match parseSseLine num true line outcome with
    | (.error message, outcome) => ⟨[], .raised message, outcome⟩
    | (.ok items, outcome) => readItems outcome (readLines lines outcome) items

/-- A line from which nothing is taken, and which records nothing: it is dropped, ends the reading
or makes the parser raise. -/
def Mute (line : List Char) : Prop :=
  ∀ v, (sseData num line : SseData F) = .chunk v → ∀ items, v = .obj items → items = []

variable {num}

theorem Mute.parse {line : List Char} (h : Mute num line) (outcome : RemoteOutcome) :
    (∃ message, parseSseLine num true line outcome = (.error message, outcome)) ∨
    parseSseLine num true line outcome = (.ok [.done], outcome) ∨
    parseSseLine num true line outcome = (.ok [], outcome) := by
  unfold parseSseLine
  cases hdata : (sseData num line : SseData F) with
  | other => exact .inr (.inr rfl)
  | done => exact .inr (.inl rfl)
  | chunk v =>
    cases v with
    | obj items =>
      rw [h _ hdata items rfl]
      exact .inr (.inr rfl)
    | _ => exact .inl ⟨_, rfl⟩

theorem readLines_other {line : List Char} (h : (sseData num line : SseData F) = .other)
    (lines : List (List Char)) (outcome : RemoteOutcome) :
    readLines num (line :: lines) outcome = readLines num lines outcome := by
  simp only [readLines, parseSseLine, h, readItems]

/-- Mute lines are passed over, or the reading ends there. -/
theorem readLines_mute {lines : List (List Char)} (h : ∀ line ∈ lines, Mute num line)
    (more : List (List Char)) (outcome : RemoteOutcome) :
    readLines num (lines ++ more) outcome =
      if (readLines num lines outcome).ended = .exhausted then readLines num more outcome
      else ⟨[], (readLines num lines outcome).ended, outcome⟩ := by
  induction lines with
  | nil => rfl
  | cons line lines ih =>
    rw [List.cons_append, readLines, readLines]
    rcases (h line (List.mem_cons_self ..)).parse outcome with ⟨message, hline⟩ | hline | hline
    · rw [hline]
      rfl
    · rw [hline]
      rfl
    · rw [hline]
      exact ih fun line' hline' => h line' (List.mem_cons_of_mem line hline')

end Read

/-! ## A line of the parser -/

section Line

variable {F : Type} {num : Numbers F}

theorem space_ne_quote {c : Char} (h : Py.isSpace c = true) : c ≠ '"' ∧ c ≠ '\\' := by
  constructor
  · rintro rfl
    revert h
    decide
  · rintro rfl
    revert h
    decide

/-- What `_sse` puts before each frame. -/
def dataLead : List Char := ['d', 'a', 't', 'a', ':', ' ']

/-- What is neither dropped nor the end marker stands in a line between a quote-free beginning and
some space. -/
theorem sseData_split {line : List Char} (h : (sseData num line : SseData F) ≠ .other) :
    ∃ before data after, line = before ++ (data ++ after) ∧ '"' ∉ before ∧ '\\' ∉ before ∧
      (∀ c ∈ after, Py.isSpace c = true) ∧
      (sseData num line = .done ∧ data = doneMarker ∨
        ∃ v, (sseData num line : SseData F) = .chunk v ∧
        loads num.toFloats (.ofList data) = some v) := by
  obtain ⟨ws₁, ws₂, hline, hws₁, hws₂⟩ := strip_spec line
  obtain ⟨ws₃, ws₄, hdata, hws₃, hws₄⟩ := strip_spec ((Py.strip line).drop dataTag.length)
  unfold sseData at h ⊢
  dsimp only at h ⊢
  split at h
  · exact absurd rfl h
  · rename_i htag
    rw [if_neg htag]
    simp only [Bool.or_eq_true, Bool.not_eq_true', not_or, Bool.not_eq_false] at htag
    have htagged := List.prefix_iff_eq_append.mp (List.isPrefixOf_iff_prefix.mp htag.2)
    refine ⟨ws₁ ++ (dataTag ++ ws₃), Py.strip ((Py.strip line).drop dataTag.length), ws₄ ++ ws₂,
      ?_, ?_, ?_, ?_, ?_⟩
    · calc line = ws₁ ++ (Py.strip line ++ ws₂) := hline
        _ = ws₁ ++ ((dataTag ++ (Py.strip line).drop dataTag.length) ++ ws₂) := by rw [htagged]
        _ = ws₁ ++ ((dataTag ++
          (ws₃ ++ (Py.strip ((Py.strip line).drop dataTag.length) ++ ws₄))) ++ ws₂) := by
          rw [← hdata]
        _ = _ := by simp only [List.append_assoc]
    · intro hmem
      rcases List.mem_append.mp hmem with hmem | hmem
      · exact (space_ne_quote (hws₁ _ hmem)).1 rfl
      · rcases List.mem_append.mp hmem with hmem | hmem
        · revert hmem
          decide
        · exact (space_ne_quote (hws₃ _ hmem)).1 rfl
    · intro hmem
      rcases List.mem_append.mp hmem with hmem | hmem
      · exact (space_ne_quote (hws₁ _ hmem)).2 rfl
      · rcases List.mem_append.mp hmem with hmem | hmem
        · revert hmem
          decide
        · exact (space_ne_quote (hws₃ _ hmem)).2 rfl
    · intro c hc
      rcases List.mem_append.mp hc with hc | hc
      · exact hws₄ c hc
      · exact hws₂ c hc
    · split
      · rename_i hdone
        exact .inl ⟨rfl, hdone⟩
      · rename_i hdone
        rw [if_neg hdone] at h
        split
        · rename_i hnone
          rw [hnone] at h
          exact absurd rfl h
        · rename_i v hsome
          exact .inr ⟨v, rfl, hsome⟩

theorem not_mem_spaces {ws : List Char} (h : ∀ c ∈ ws, Py.isSpace c = true) : '"' ∉ ws :=
  fun hmem => (space_ne_quote (h _ hmem)).1 rfl

theorem sseData_object {text : List Char} (hlast : ('{' :: text).getLast? = some '}') :
    (sseData num (dataLead ++ '{' :: text) : SseData F) =
      match loads num.toFloats (.ofList ('{' :: text)) with
      | none => .other
      | some obj => .chunk obj := by
  have hline : Py.strip (dataLead ++ '{' :: text) = dataLead ++ '{' :: text := by
    refine strip_eq_self (c := 'd') (d := '}') (by decide) (by decide) ?_
    exact (List.getLast?_append_cons dataLead '{' text).trans hlast
  have hdata : Py.strip (' ' :: '{' :: text) = '{' :: text :=
    strip_eq_self (c := '{') (d := '}') (by decide) (by decide) hlast
  have hmarker : ¬ '{' :: text = doneMarker := by
    intro h
    cases h
  have htag : dataTag.isPrefixOf (dataLead ++ '{' :: text) = true := rfl
  have hdrop : (dataLead ++ '{' :: text).drop dataTag.length = ' ' :: '{' :: text := rfl
  unfold sseData
  dsimp only
  rw [hline, hdrop, hdata, if_neg hmarker, htag]
  rfl

theorem sseData_unterminated {line : List Char} (h : line.foldl Lex.next .bare ≠ .bare) :
    (sseData num line : SseData F) = .other := by
  by_contra hother
  obtain ⟨before, data, after, hline, hbefore, -, hafter, hdata⟩ := sseData_split hother
  have hbare : data.foldl Lex.next .bare = .bare := by
    rcases hdata with ⟨-, rfl⟩ | ⟨v, -, hloads⟩
    · rfl
    · exact foldl_next_of_lex (lex_of_loads hloads)
  apply h
  rw [hline, List.foldl_append, List.foldl_append, foldl_next_unquoted hbefore, hbare,
    foldl_next_unquoted (not_mem_spaces hafter)]

/-- What comes from within a string gives nothing. -/
theorem mute_shielded {e : List Char} (he : Shielded e) : Mute num e := by
  intro v hv items hitems
  subst hitems
  obtain ⟨before, data, after, hline, -, hslash, -, hdata⟩ := @sseData_split _ num e
    (by rw [hv]; exact fun h => by cases h)
  rcases hdata with ⟨hdone, -⟩ | ⟨v', hv', hloads⟩
  · rw [hv] at hdone
    cases hdone
  · rw [hv] at hv'
    cases hv'
    by_cases hquote : '"' ∈ data
    · -- the quote would stand before the first backslash
      obtain ⟨d₁, d₂, rfl, -, hd₁, -⟩ := first_quote hloads hquote
      have hmem := he (before ++ d₁) (d₂ ++ after) (by rw [hline]; simp)
      rcases List.mem_append.mp hmem with hmem | hmem
      · exact absurd hmem hslash
      · exact absurd hmem hd₁
    · exact obj_of_unquoted hquote hloads

/-- A line that comes from within a string and goes on after its end is dropped, if what it goes on
with cannot stand outside of strings. -/
theorem sseData_cut {e t₁ t₂ : List Char} (he : Shielded e) (ht₁ : lex .bare ('"' :: t₁) = none)
    (hspace : ∀ c ∈ t₁, Py.isSpace c = false) :
    (sseData num (e ++ '"' :: (t₁ ++ t₂)) : SseData F) = .other := by
  by_contra hother
  obtain ⟨before, data, after, hline, hbefore, hslash, hafter, hdata⟩ := sseData_split hother
  have hquote : '"' ∈ data := by
    have hmem : '"' ∈ before ++ (data ++ after) := by
      rw [← hline]
      simp
    rcases List.mem_append.mp hmem with hmem | hmem
    · exact absurd hmem hbefore
    · rcases List.mem_append.mp hmem with hmem | hmem
      · exact hmem
      · exact absurd hmem (not_mem_spaces hafter)
  rcases hdata with ⟨-, rfl⟩ | ⟨v, -, hloads⟩
  · revert hquote
    decide
  · obtain ⟨d₁, d₂, rfl, hd₁, hslash₁, hlex⟩ := first_quote hloads hquote
    have hfirst : '"' ∉ before ++ d₁ := fun hmem => (List.mem_append.mp hmem).elim hbefore hd₁
    have hline : e ++ '"' :: (t₁ ++ t₂) = (before ++ d₁) ++ '"' :: (d₂ ++ after) := by
      rw [hline]
      simp
    -- the string ends at the first quote of the line
    have hrest : t₁ ++ t₂ = d₂ ++ after := by
      rcases List.append_eq_append_iff.mp hline with ⟨as, h₁, h₂⟩ | ⟨bs, h₁, h₂⟩
      · cases as with
        | nil => exact (List.cons.inj h₂).2
        | cons a as =>
          rw [h₁, ← (List.cons.inj h₂).1] at hfirst
          exact absurd (by simp) hfirst
      · cases bs with
        | nil => exact (List.cons.inj h₂).2.symm
        | cons b bs =>
          rw [← (List.cons.inj h₂).1] at h₁
          have hmem := he _ _ h₁
          rcases List.mem_append.mp hmem with hmem | hmem
          · exact absurd hmem hslash
          · exact absurd hmem hslash₁
    rcases List.append_eq_append_iff.mp hrest with ⟨as, h₁, h₂⟩ | ⟨bs, h₁, h₂⟩
    · rw [h₁, ← List.cons_append, lex_append, ht₁] at hlex
      cases hlex
    · cases bs with
      | nil =>
        rw [List.append_nil] at h₁
        rw [h₁, hlex] at ht₁
        cases ht₁
      | cons b bs =>
        have hb := hspace b (by rw [h₁]; simp)
        rw [hafter b (by rw [h₂]; simp)] at hb
        cases hb

end Line

/-! ## Strings that are torn -/

/-- The line boundaries that are no control characters. -/
def tears (c : Char) : Bool := c == '\u0085' || c == '\u2028' || c == '\u2029'

def Unbroken (s : List Char) : Prop := ∀ c ∈ s, tears c = false

instance (s : List Char) : Decidable (Unbroken s) :=
  @List.decidableBAll Char (tears · = false) (fun _ => inferInstance) s

/-- No line ends in it. -/
def OneLine (cs : List Char) : Prop := ∀ c ∈ cs, isLineBreak c = false

instance (cs : List Char) : Decidable (OneLine cs) :=
  @List.decidableBAll Char (isLineBreak · = false) (fun _ => inferInstance) cs

theorem oneLine_nil : OneLine [] := List.forall_mem_nil _

theorem oneLine_cons {c : Char} {cs : List Char} :
    OneLine (c :: cs) ↔ isLineBreak c = false ∧ OneLine cs := List.forall_mem_cons

theorem oneLine_append {cs cs' : List Char} : OneLine (cs ++ cs') ↔ OneLine cs ∧ OneLine cs' :=
  List.forall_mem_append

theorem isLineBreak_eq_tears {c : Char} (h : ¬ c.toNat < 0x20) : isLineBreak c = tears c := by
  have heq : ∀ d : Char, (c == d) = (c.toNat == d.toNat) := by
    intro d
    rw [Bool.eq_iff_iff, beq_iff_eq, beq_iff_eq]
    exact Char.toNat_inj.symm
  unfold isLineBreak tears
  rw [heq, heq, heq, Bool.eq_iff_iff]
  simp only [Bool.or_eq_true, Bool.and_eq_true, beq_iff_eq, decide_eq_true_eq]
  show _ ↔ (c.toNat = 0x85 ∨ c.toNat = 0x2028) ∨ c.toNat = 0x2029
  omega

theorem escapeChar_tears {c : Char} (h : tears c = true) :
    escapeChar c = [c] ∧ isLineBreak c = true := by
  simp only [tears, Bool.or_eq_true, beq_iff_eq] at h
  rcases h with (rfl | rfl) | rfl
  · exact ⟨rfl, rfl⟩
  · exact ⟨rfl, rfl⟩
  · exact ⟨rfl, rfl⟩

theorem oneLine_escapeChar {c : Char} (h : tears c = false) : OneLine (escapeChar c) := by
  intro d hd
  rcases escapeChar_cases c with ⟨heq, -, -, hc⟩ | ⟨x, cs, heq, hascii, -⟩
  · rw [heq, List.mem_singleton] at hd
    rw [hd, isLineBreak_eq_tears hc, h]
  · rw [heq, List.mem_cons] at hd
    rcases hd with rfl | hd
    · rfl
    · obtain ⟨hlow, hhigh⟩ := hascii d hd
      simp only [isLineBreak, Bool.or_eq_false_iff, Bool.and_eq_false_iff, decide_eq_false_iff_not,
        beq_eq_false_iff_ne]
      omega

theorem oneLine_escapeString {s : List Char} (h : Unbroken s) : OneLine (escapeString s) := by
  intro d hd
  obtain ⟨c, hc, hd⟩ := List.mem_flatMap.mp hd
  exact oneLine_escapeChar (h c hc) d hd

theorem first_tear {s : List Char} (h : ¬ Unbroken s) :
    ∃ s₀ c s', s = s₀ ++ c :: s' ∧ Unbroken s₀ ∧ tears c = true := by
  induction s with
  | nil => exact absurd (by simp [Unbroken]) h
  | cons c s ih =>
    cases hc : tears c with
    | true => exact ⟨[], c, s, rfl, by simp [Unbroken], hc⟩
    | false =>
      have hs : ¬ Unbroken s := fun hs => h (List.forall_mem_cons.mpr ⟨hc, hs⟩)
      obtain ⟨s₀, d, s', rfl, hs₀, hd⟩ := ih hs
      exact ⟨c :: s₀, d, s', rfl, List.forall_mem_cons.mpr ⟨hc, hs₀⟩, hd⟩

/-- The lines of a string that is torn, between the first and the last. -/
def innerLines (s : List Char) : List (List Char) :=
  ((escapeString s).splitOnP isLineBreak).tail.dropLast

/-- A text around a string that is torn: its first line goes up to the first tear, its last one
starts at the last. -/
theorem splitOnP_torn {s : List Char} (h : ¬ Unbroken s) :
    ∃ s₀ sₙ, Unbroken sₙ ∧ (∀ p ∈ innerLines s, Shielded p) ∧
      ∀ before after, OneLine before → (before ++ (escapeString s ++ after)).splitOnP isLineBreak =
        (before ++ escapeString s₀) ::
          (innerLines s ++ (escapeString sₙ ++ after).splitOnP isLineBreak) := by
  induction hn : s.length using Nat.strongRecOn generalizing s with
  | ind n ih =>
    obtain ⟨s₀, c, s', rfl, hs₀, hc⟩ := first_tear h
    obtain ⟨hesc, hbreak⟩ := escapeChar_tears hc
    have htext : escapeString (s₀ ++ c :: s') = escapeString s₀ ++ c :: escapeString s' := by
      rw [escapeString_append]
      show _ ++ (escapeChar c ++ escapeString s') = _
      rw [hesc]
      rfl
    have hsplit : ∀ before after, OneLine before →
        (before ++ (escapeString (s₀ ++ c :: s') ++ after)).splitOnP isLineBreak =
          (before ++ escapeString s₀) :: (escapeString s' ++ after).splitOnP isLineBreak := by
      intro before after hbefore
      have hfirst := oneLine_append.mpr ⟨hbefore, oneLine_escapeString hs₀⟩
      rw [htext, List.append_assoc, List.cons_append, ← List.append_assoc]
      exact List.splitOnP_append_cons_of_forall_mem hfirst c hbreak _
    have hself : (escapeString (s₀ ++ c :: s')).splitOnP isLineBreak =
        escapeString s₀ :: (escapeString s').splitOnP isLineBreak := by
      have h := hsplit [] [] (by simp [OneLine])
      simpa using h
    by_cases hs' : Unbroken s'
    · have hinner : innerLines (s₀ ++ c :: s') = [] := by
        rw [innerLines, hself, List.splitOnP_eq_singleton (oneLine_escapeString hs')]
        rfl
      rw [hinner]
      exact ⟨s₀, s', hs', by simp, hsplit⟩
    · obtain ⟨s₁, sₙ, hsₙ, hinner, hrest⟩ := ih s'.length (by rw [← hn]; simp; omega) hs' rfl
      have hrest := fun after => hrest [] after (by simp [OneLine])
      have hlines : innerLines (s₀ ++ c :: s') = escapeString s₁ :: innerLines s' := by
        have hs := hrest []
        rw [List.append_nil, List.append_nil, List.nil_append,
          List.splitOnP_eq_singleton (oneLine_escapeString hsₙ)] at hs
        rw [innerLines, hself, List.tail_cons, hs, List.nil_append, ← List.cons_append,
          List.dropLast_concat]
      refine ⟨s₀, sₙ, hsₙ, ?_, fun before after hbefore => ?_⟩
      · rw [hlines]
        exact List.forall_mem_cons.mpr ⟨shielded_escapeString s₁, hinner⟩
      · have hmore := hrest after
        rw [List.nil_append] at hmore
        rw [hsplit before after hbefore, hmore, hlines]
        simp

namespace Edge

/-! ## What is sent -/

/-- What the chunks of a response share, and the time at which each of them is made. -/
structure Stamp where
  /-- `uuid4().hex` -/
  digits : List (Fin 16)
  model : String
  created : Nat → Int

def Stamp.requestId (st : Stamp) : String := "chatcmpl-" ++ String.ofList (st.digits.map hexDigit)

def strText (s : String) : List Char := '"' :: (escapeString s.toList ++ ['"'])

def optText : Option String → List Char
  | none => ['n', 'u', 'l', 'l']
  | some s => strText s

/-- `Delta` -/
def deltaText (role content : Option String) : List Char :=
  objText .compact [("role".toList, optText role), ("content".toList, optText content)]

/-- `ChatCompletionChunkChoice` -/
def chunkChoiceText (role content finish : Option String) : List Char :=
  objText .compact [("index".toList, (intLit 0).text), ("delta".toList, deltaText role content),
    ("finish_reason".toList, optText finish)]

/-- `ChatCompletionChunk.model_dump_json()` -/
def chunkText (st : Stamp) (n : Nat) (role content finish : Option String) : List Char :=
  objText .compact [("id".toList, strText st.requestId),
    ("object".toList, strText "chat.completion.chunk"),
      ("created".toList, (intLit (st.created n)).text),
    ("model".toList, strText st.model),
    ("choices".toList, arrText .compact [chunkChoiceText role content finish])]

/-- A `data:` line. -/
def dataLine (st : Stamp) (n : Nat) : OpenAIFrame → List Char
  | .chunk role content finish => dataLead ++ chunkText st n role content finish
  | .error message type => dataLead ++ objText .spaced [("error".toList,
      objText .spaced [("message".toList, strText message), ("type".toList, strText type),
        ("code".toList, ['n', 'u', 'l', 'l'])])]
  | .done => dataLead ++ doneMarker

theorem dataLine_chunk (st : Stamp) (n : Nat) (role content finish : Option String) :
    dataLine st n (.chunk role content finish) = dataLead ++
      chunkText st n role content finish := rfl

theorem dataLine_done (st : Stamp) (n : Nat) : dataLine st n .done = dataLead ++ doneMarker := rfl

/-- The text of the frames from number `n` on. -/
def sseText (st : Stamp) : Nat → List OpenAIFrame → List Char
  | _, [] => []
  | n, f :: fs => dataLine st n f ++ ['\n', '\n'] ++ sseText st (n + 1) fs

/-- The lines of the text. -/
def sseLines (st : Stamp) : Nat → List OpenAIFrame → List (List Char)
  | _, [] => []
  | n, f :: fs => (dataLine st n f).splitOnP isLineBreak ++ [] :: sseLines st (n + 1) fs

section Chunk

variable {F : Type} (num : Numbers F) (st : Stamp) (n : Nat) (role content finish : Option String)

def optValue : Option String → Value F
  | none => .null
  | some s => .str (Text.ofString s)

def deltaItems : List (Text × Value F) :=
  [(Text.ofString "role", optValue role), (Text.ofString "content", optValue content)]

def choiceItems : List (Text × Value F) :=
  [(Text.ofString "index", .int 0), (Text.ofString "delta", .obj (dict (deltaItems role content))),
    (Text.ofString "finish_reason", optValue finish)]

def chunkItems : List (Text × Value F) :=
  [(Text.ofString "id", .str (Text.ofString st.requestId)),
    (Text.ofString "object", .str (Text.ofString "chat.completion.chunk")),
    (Text.ofString "created", .int (st.created n)),
      (Text.ofString "model", .str (Text.ofString st.model)),
    (Text.ofString "choices", .arr [.obj (dict (choiceItems role content finish))])]

variable {num}

theorem scans_str (s : String) : Scans num.toFloats (strText s) (.str (Text.ofString s)) :=
  .str (quotes_escapeString s)

theorem scans_opt (s : Option String) : Scans num.toFloats (optText s) (optValue s : Value F) := by
  cases s with
  | none => exact .literal (by decide) fun rest => rfl
  | some s => exact scans_str s

theorem scans_int (k : Int) : Scans num.toFloats (intLit k).text (.int k) := by
  have h : Scans num.toFloats (intLit k).text _ := .number (intLit_wellFormed k)
  rwa [intLit_value] at h

theorem scans_delta : Scans num.toFloats (deltaText role content)
    (.obj (dict (deltaItems role content))) := by
  refine .obj .compact (.cons ⟨quotes_escapeString "role", scans_opt role⟩ ?_)
  exact .cons ⟨quotes_escapeString "content", scans_opt content⟩ .nil

theorem scans_choice : Scans num.toFloats (chunkChoiceText role content finish)
    (.obj (dict (choiceItems role content finish))) := by
  refine .obj .compact (.cons ⟨quotes_escapeString "index", scans_int 0⟩ ?_)
  refine .cons ⟨quotes_escapeString "delta", scans_delta role content⟩ ?_
  exact .cons ⟨quotes_escapeString "finish_reason", scans_opt finish⟩ .nil

theorem loads_chunkText : loads num.toFloats (.ofList (chunkText st n role content finish)) =
    some (.obj (dict (chunkItems st n role content finish))) := by
  refine (Scans.obj .compact (.cons ⟨quotes_escapeString "id", scans_str st.requestId⟩ ?_)).loads
  refine .cons ⟨quotes_escapeString "object", scans_str "chat.completion.chunk"⟩ ?_
  refine .cons ⟨quotes_escapeString "created", scans_int (st.created n)⟩ ?_
  refine .cons ⟨quotes_escapeString "model", scans_str st.model⟩ ?_
  have hchoices : Scans num.toFloats (arrText .compact [chunkChoiceText role content finish])
      (.arr [.obj (dict (choiceItems role content finish))]) :=
    .arr .compact (.cons (scans_choice role content finish) .nil)
  exact .cons ⟨quotes_escapeString "choices", hchoices⟩ .nil

theorem getLast?_itemsText (items : List (List Char × List Char)) (cs : List Char) :
    (cs ++ itemsText .compact items).getLast? = some '}' := by
  induction items generalizing cs with
  | nil => simp [itemsText]
  | cons p items ih =>
    have h := ih (cs ++ (Separators.compact.item ++ '"' ::
        (p.1 ++ '"' :: (Separators.compact.key ++ p.2))))
    simpa [itemsText] using h

theorem sseData_chunk : (sseData num (dataLead ++ chunkText st n role content finish) : SseData F) =
    .chunk (.obj (dict (chunkItems st n role content finish))) := by
  have hlast := getLast?_itemsText
    [("object".toList, strText "chat.completion.chunk"),
      ("created".toList, (intLit (st.created n)).text), ("model".toList, strText st.model),
      ("choices".toList, arrText .compact [chunkChoiceText role content finish])]
    ('{' :: '"' :: ("id".toList ++ '"' :: (Separators.compact.key ++ strText st.requestId)))
  obtain ⟨text, htext⟩ : ∃ text, chunkText st n role content finish = '{' :: text := ⟨_, rfl⟩
  have hloads := @loads_chunkText _ num st n role content finish
  rw [htext] at hloads ⊢
  rw [sseData_object, hloads]
  rw [← htext]
  simpa [chunkText, objText] using hlast

theorem lookup_deltaItems :
    (dict (deltaItems role content : List (Text × Value F))).lookup (Text.ofString "content") =
      some (optValue content) := by
  rw [lookup_dict]
  rfl

theorem lookup_choiceItems :
    (dict (choiceItems role content finish : List (Text × Value F))).lookup
        (Text.ofString "finish_reason") = some (optValue finish) ∧
    (dict (choiceItems role content finish : List (Text × Value F))).lookup
        (Text.ofString "delta") = some (.obj (dict (deltaItems role content))) := by
  rw [lookup_dict, lookup_dict]
  exact ⟨rfl, rfl⟩

theorem lookup_chunkItems :
    (dict (chunkItems st n role content finish : List (Text × Value F))).lookup
        (Text.ofString "usage") = none ∧
    (dict (chunkItems st n role content finish : List (Text × Value F))).lookup
        (Text.ofString "choices") =
        some (.arr [.obj (dict (choiceItems role content finish))]) := by
  rw [lookup_dict, lookup_dict]
  exact ⟨rfl, rfl⟩

/-- The tokens of a chunk. -/
def contentItems : Option String → List (SseItem F)
  | none => []
  | some text => if text = "" then [] else [.text (.str (Text.ofString text))]

theorem ofString_eq_nil {s : String} (h : Text.ofString s = []) : s = "" := by
  rw [← String.toList_eq_nil_iff]
  cases hs : s.toList with
  | nil => rfl
  | cons c cs =>
    rw [Text.ofString, hs, List.flatMap_cons, List.append_eq_nil_iff] at h
    have hne : Text.encode c.toNat ≠ [] := by
      unfold Text.encode
      split <;> simp
    exact absurd h.1 hne

/-- What the parser makes of a chunk whose line is whole. -/
theorem parseSseLine_chunk (outcome : RemoteOutcome) :
    parseSseLine num true (dataLead ++ chunkText st n role content finish) outcome =
      (.ok (contentItems content),
        { outcome with finish := (finishOf (optValue finish : Value F)).getD outcome.finish }) := by
  obtain ⟨husage, hchoices⟩ := lookup_chunkItems (F := F) st n role content finish
  obtain ⟨hfinish, hdelta⟩ := lookup_choiceItems (F := F) role content finish
  have hcontent := lookup_deltaItems (F := F) role content
  have hne : truthy num (.obj (dict (deltaItems role content))) = true := by
    unfold truthy
    cases hitems : dict (deltaItems role content : List (Text × Value F)) with
    | nil => rw [hitems] at hcontent; cases hcontent
    | cons p items => rfl
  have htext : choiceText num true (.obj (dict (choiceItems role content finish))) =
      .ok (or num (optValue content) (.str [])) := by
    simp only [choiceText, Py.get, hdelta, Option.getD_some, Py.or, hne, if_true, hcontent]
  have hitems : (if truthy num (or num (optValue content) (.str [])) then
      [SseItem.text (or num (optValue content) (.str []))] else []) = contentItems content := by
    cases content with
    | none => rfl
    | some text =>
      by_cases htext : text = ""
      · subst htext
        rfl
      · have hnil : Text.ofString text ≠ [] := fun h => htext (ofString_eq_nil h)
        have htruthy : truthy num (optValue (some text)) = true := by
          simp [truthy, optValue, hnil]
        simp only [Py.or, htruthy, if_true, contentItems, if_neg htext]
        rfl
  have hfirst : firstChoice num (.obj (dict (chunkItems st n role content finish))) =
      .ok (some (.obj (dict (choiceItems role content finish)))) := by
    simp only [firstChoice, Py.get, hchoices, Option.getD_some]
    rfl
  rw [parseSseLine, sseData_chunk]
  simp only [parseChunk, Py.get, husage, Option.getD_none, recordUsage, parseChoices, hfirst,
    hfinish, Option.getD_some, htext, hitems]

/-! ### The places where a line may be torn -/

def keyText (key : String) : List Char := '"' :: (key.toList ++ ['"', ':'])

/-- Up to the model name. -/
def chunkHead : List Char :=
  dataLead ++ '{' :: (keyText "id" ++ (strText st.requestId ++ ',' :: (keyText "object" ++
    (strText "chat.completion.chunk" ++ ',' ::
      (keyText "created" ++ ((intLit (st.created n)).text ++ ',' :: (keyText "model" ++ ['"'])))))))

/-- After the model name, up to the content. -/
def chunkMid : List Char :=
  '"' :: ',' :: (keyText "choices" ++ '[' :: '{' :: (keyText "index" ++ ((intLit 0).text ++
    ',' :: (keyText "delta" ++ '{' ::
      (keyText "role" ++ (optText role ++ ',' :: keyText "content"))))))

/-- After the content. -/
def chunkTail : List Char :=
  '}' :: ',' :: (keyText "finish_reason" ++ (optText finish ++ ['}', ']', '}']))

theorem chunkText_eq : dataLead ++ chunkText st n role content finish =
    chunkHead st n ++ (escapeString st.model.toList ++
      (chunkMid role ++ (optText content ++ chunkTail finish))) := by
  simp only [chunkText, chunkHead, chunkMid, chunkTail, chunkChoiceText, deltaText, objText,
    itemsText, arrText, elementsText, strText, keyText, Separators.item, Separators.key,
    Separators.space, List.append_assoc, List.cons_append, List.nil_append]

theorem oneLine_strText {s : String} (h : Unbroken s.toList) : OneLine (strText s) :=
  oneLine_cons.mpr ⟨rfl, oneLine_append.mpr ⟨oneLine_escapeString h, by decide⟩⟩

theorem oneLine_optText {s : Option String} (h : ∀ t ∈ s, Unbroken t.toList) :
    OneLine (optText s) := by
  cases s with
  | none => decide
  | some t => exact oneLine_strText (h t rfl)

theorem unbroken_requestId : Unbroken st.requestId.toList := by
  have hhex : ∀ d : Fin 16, tears (hexDigit d) = false := by decide
  have hlit : Unbroken "chatcmpl-".toList := by decide
  rw [Stamp.requestId, String.toList_append, String.toList_ofList (l := st.digits.map hexDigit)]
  refine List.forall_mem_append.mpr ⟨hlit, fun c hc => ?_⟩
  obtain ⟨d, -, rfl⟩ := List.mem_map.mp hc
  exact hhex d

theorem intLit_text_mem {k : Int} {c : Char} (h : c ∈ (intLit k).text) :
    c = '-' ∨ c.isDigit = true := by
  simp only [NumLit.text, intLit, List.isEmpty_nil, if_true, List.append_nil, List.mem_append] at h
  rcases h with h | h
  · left
    by_cases hk : k < 0
    · simpa [hk] using h
    · simp [hk] at h
  · exact .inr (Nat.isDigit_of_mem_toDigits (by decide) (by decide) h)

theorem oneLine_intText (k : Int) : OneLine (intLit k).text := by
  intro c hc
  rcases intLit_text_mem hc with rfl | hdigit
  · rfl
  · have hrange : 48 ≤ c.toNat ∧ c.toNat ≤ 57 := by
      simpa [Char.isDigit, UInt32.le_iff_toNat_le] using hdigit
    simp only [isLineBreak, Bool.or_eq_false_iff, Bool.and_eq_false_iff, decide_eq_false_iff_not,
      beq_eq_false_iff_ne]
    omega

theorem unquoted_intText (k : Int) : '"' ∉ (intLit k).text := by
  intro hmem
  rcases intLit_text_mem hmem with h | h
  · cases h
  · cases h

theorem oneLine_chunkHead : OneLine (chunkHead st n) := by
  simp only [chunkHead, oneLine_append, oneLine_cons]
  exact ⟨by decide, rfl, by decide, oneLine_strText (unbroken_requestId st), rfl, by decide, by decide, rfl,
    by decide, oneLine_intText _, rfl, by decide, rfl, oneLine_nil⟩

theorem oneLine_chunkMid (h : ∀ s ∈ role, Unbroken s.toList) : OneLine (chunkMid role) := by
  simp only [chunkMid, oneLine_append, oneLine_cons]
  exact ⟨rfl, rfl, by decide, rfl, rfl, by decide, oneLine_intText 0, rfl, by decide, rfl, by decide,
    oneLine_optText h, rfl, by decide⟩

theorem oneLine_chunkTail (h : ∀ s ∈ finish, Unbroken s.toList) : OneLine (chunkTail finish) := by
  simp only [chunkTail, oneLine_append, oneLine_cons]
  exact ⟨rfl, rfl, by decide, oneLine_optText h, by decide⟩

theorem foldl_strText (s : String) : (strText s).foldl Lex.next .bare = .bare := by
  show ((escapeString s.toList) ++ ['"']).foldl Lex.next .quoted = .bare
  rw [List.foldl_append, foldl_next_escapeString]
  rfl

theorem foldl_optText (s : Option String) : (optText s).foldl Lex.next .bare = .bare := by
  cases s with
  | none => rfl
  | some t => exact foldl_strText t

theorem foldl_intText (k : Int) : (intLit k).text.foldl Lex.next .bare = .bare :=
  foldl_next_unquoted (unquoted_intText k)

theorem foldl_chunkHead : (chunkHead st n).foldl Lex.next .bare = .quoted := by
  have hstart : (keyText "id").foldl Lex.next
      ((dataLead.foldl Lex.next .bare).next '{') = .bare := rfl
  have hobject : (keyText "object").foldl Lex.next (Lex.bare.next ',') = .bare := rfl
  have hcreated : (keyText "created").foldl Lex.next (Lex.bare.next ',') = .bare := rfl
  have hmodel : ((keyText "model").foldl Lex.next (Lex.bare.next ',')).next '"' = .quoted := rfl
  simp only [chunkHead, List.foldl_append, List.foldl_cons, List.foldl_nil, hstart, foldl_strText,
    hobject, hcreated, foldl_intText, hmodel]

theorem foldl_chunkMid : (chunkMid role).foldl Lex.next .quoted = .bare := by
  have hchoices : (keyText "choices").foldl Lex.next ((Lex.quoted.next '"').next ',') = .bare := rfl
  have hindex : (keyText "index").foldl Lex.next ((Lex.bare.next '[').next '{') = .bare := rfl
  have hdelta : (keyText "delta").foldl Lex.next (Lex.bare.next ',') = .bare := rfl
  have hrole : (keyText "role").foldl Lex.next (Lex.bare.next '{') = .bare := rfl
  have hcontent : (keyText "content").foldl Lex.next (Lex.bare.next ',') = .bare := rfl
  simp only [chunkMid, List.foldl_append, List.foldl_cons, hchoices, hindex, foldl_intText, hdelta,
    hrole, foldl_optText, hcontent]

/-! ### Lines that are torn -/

theorem mute_other {line : List Char} (h : (sseData num line : SseData F) = .other) :
    Mute num line := by
  intro v hv
  rw [h] at hv
  cases hv

/-- A string that is torn, where the text before it makes its first line mute, and the text after it
its last ones. -/
theorem mute_torn {before s after : List Char} (hs : ¬ Unbroken s) (hbefore : OneLine before)
    (hfirst : ∀ s₀, Mute num (before ++ escapeString s₀))
    (hlast : ∀ sₙ, Unbroken sₙ →
      ∀ p ∈ (escapeString sₙ ++ after).splitOnP isLineBreak, Mute num p) :
    ∀ p ∈ (before ++ (escapeString s ++ after)).splitOnP isLineBreak, Mute num p := by
  obtain ⟨s₀, sₙ, hsₙ, hinner, hsplit⟩ := splitOnP_torn hs
  intro p hp
  rw [hsplit before after hbefore, List.mem_cons, List.mem_append] at hp
  rcases hp with rfl | hp | hp
  · exact hfirst s₀
  · exact mute_shielded (hinner p hp)
  · exact hlast sₙ hsₙ p hp

/-- The rest of a line from within the content. -/
theorem sseData_tail {e : List Char} (he : Shielded e) :
    (sseData num (e ++ '"' :: chunkTail finish) : SseData F) = .other :=
  @sseData_cut _ _ _ "\x7d,\"finish_".toList _ he (by decide) (List.all_iff_forall_prop.mp rfl)

/-- The rest of a line from within the model name, whatever comes after it. -/
theorem sseData_mid {e : List Char} (he : Shielded e) (more : List Char) :
    (sseData num (e ++ (chunkMid role ++ more)) : SseData F) = .other :=
  @sseData_cut _ _ _ ",\"c".toList _ he (by decide) (List.all_iff_forall_prop.mp rfl)

theorem mute_content {before : List Char} {text : String} (htext : ¬ Unbroken text.toList)
    (hbefore : OneLine before) (hfirst : ∀ s₀, Mute num (before ++ '"' :: escapeString s₀))
    (hfinish : ∀ s ∈ finish, Unbroken s.toList) :
    ∀ p ∈ (before ++ (optText (some text) ++ chunkTail finish)).splitOnP isLineBreak,
      Mute num p := by
  have heq : before ++ (optText (some text) ++ chunkTail finish) =
      (before ++ ['"']) ++ (escapeString text.toList ++ '"' :: chunkTail finish) := by
    simp [optText, strText]
  rw [heq]
  refine mute_torn htext (oneLine_append.mpr ⟨hbefore, by decide⟩)
    (fun s₀ => ?_) fun sₙ hsₙ p hp => ?_
  · rw [List.append_assoc]
    exact hfirst s₀
  · have hline : OneLine (escapeString sₙ ++ '"' :: chunkTail finish) :=
      oneLine_append.mpr ⟨oneLine_escapeString hsₙ,
        oneLine_cons.mpr ⟨rfl, oneLine_chunkTail finish hfinish⟩⟩
    rw [List.splitOnP_eq_singleton hline, List.mem_singleton] at hp
    rw [hp]
    exact mute_other (sseData_tail finish (shielded_escapeString sₙ))

theorem sseData_head (s₀ : List Char) :
    (sseData num (chunkHead st n ++ escapeString s₀) : SseData F) = .other := by
  refine sseData_unterminated ?_
  rw [List.foldl_append, foldl_chunkHead, foldl_next_escapeString]
  exact fun h => by cases h

theorem mute_pieces (hmodel : ¬ Unbroken st.model.toList) (hrole : ∀ s ∈ role, Unbroken s.toList)
    (hfinish : ∀ s ∈ finish, Unbroken s.toList) :
    ∀ p ∈ (dataLead ++ chunkText st n role content finish).splitOnP isLineBreak, Mute num p := by
  have hmid := oneLine_chunkMid role hrole
  rw [chunkText_eq]
  refine mute_torn hmodel (oneLine_chunkHead st n) (fun s₀ => mute_other (sseData_head st n s₀))
    fun sₙ hsₙ => ?_
  have hstart := oneLine_escapeString hsₙ
  -- the content may be torn as well
  by_cases hcontent : ∃ text ∈ content, ¬ Unbroken text.toList
  · obtain ⟨text, rfl, htext⟩ := hcontent
    rw [← List.append_assoc]
    refine mute_content finish htext (oneLine_append.mpr ⟨hstart, hmid⟩) (fun s₀ => ?_) hfinish
    rw [List.append_assoc]
    exact mute_other (sseData_mid role (shielded_escapeString sₙ) _)
  · have hcontent : ∀ text ∈ content, Unbroken text.toList := by
      intro text htext
      by_contra h
      exact hcontent ⟨text, htext, h⟩
    have hline := oneLine_append.mpr ⟨hstart, oneLine_append.mpr ⟨hmid, oneLine_append.mpr
      ⟨oneLine_optText hcontent, oneLine_chunkTail finish hfinish⟩⟩⟩
    intro p hp
    rw [List.splitOnP_eq_singleton hline, List.mem_singleton] at hp
    rw [hp]
    exact mute_other (sseData_mid role (shielded_escapeString sₙ) _)

theorem oneLine_chunk (hmodel : Unbroken st.model.toList) (hrole : ∀ s ∈ role, Unbroken s.toList)
    (hcontent : ∀ s ∈ content, Unbroken s.toList) (hfinish : ∀ s ∈ finish, Unbroken s.toList) :
    OneLine (dataLead ++ chunkText st n role content finish) := by
  rw [chunkText_eq]
  simp only [oneLine_append]
  exact ⟨oneLine_chunkHead st n, oneLine_escapeString hmodel, oneLine_chunkMid role hrole,
    oneLine_optText hcontent, oneLine_chunkTail finish hfinish⟩

end Chunk

/-! ## The lines of the text -/

theorem noReturn_oneLine {cs : List Char} (h : OneLine cs) : '\r' ∉ cs := by
  intro hmem
  have hbreak := h _ hmem
  revert hbreak
  decide

theorem noReturn_escapeString (s : List Char) : '\r' ∉ escapeString s := by
  intro hmem
  obtain ⟨c, -, hc⟩ := List.mem_flatMap.mp hmem
  rcases escapeChar_cases c with ⟨heq, -, -, hctrl⟩ | ⟨x, cs, heq, hascii, -⟩
  · rw [heq, List.mem_singleton] at hc
    rw [← hc] at hctrl
    exact hctrl (by decide)
  · rw [heq, List.mem_cons] at hc
    rcases hc with hc | hc
    · cases hc
    · have hlow := (hascii _ hc).1
      revert hlow
      decide

theorem noReturn_strText (s : String) : '\r' ∉ strText s := by
  simp only [strText, List.mem_cons, List.mem_append, not_or]
  exact ⟨by decide, noReturn_escapeString _, by decide, List.not_mem_nil⟩

theorem noReturn_optText (s : Option String) : '\r' ∉ optText s := by
  cases s with
  | none => decide
  | some t => exact noReturn_strText t

theorem noReturn_itemsText (sep : Separators) {items : List (List Char × List Char)}
    (h : ∀ p ∈ items, '\r' ∉ p.1 ∧ '\r' ∉ p.2) : '\r' ∉ itemsText sep items := by
  have hsep : '\r' ∉ sep.key ∧ '\r' ∉ sep.item := by
    cases sep <;> decide
  induction items with
  | nil => simp [itemsText]
  | cons p items ih =>
    obtain ⟨hkey, htext⟩ := h p (List.mem_cons_self ..)
    have hrest := ih fun q hq => h q (List.mem_cons_of_mem p hq)
    simp only [itemsText, List.mem_append, List.mem_cons, not_or]
    exact ⟨hsep.2, by decide, hkey, by decide, ⟨hsep.1, htext⟩, hrest⟩

theorem noReturn_objText (sep : Separators) {items : List (List Char × List Char)}
    (h : ∀ p ∈ items, '\r' ∉ p.1 ∧ '\r' ∉ p.2) : '\r' ∉ objText sep items := by
  cases items with
  | nil => simp [objText]
  | cons p items =>
    -- the first item only differs in what stands before it
    have hrest := noReturn_itemsText sep h
    simp only [itemsText, List.mem_append, List.mem_cons, not_or] at hrest
    simp only [objText, List.mem_append, List.mem_cons, not_or]
    exact ⟨by decide, hrest.2⟩

theorem noReturn_chunkText (st : Stamp) (n : Nat) (role content finish : Option String) :
    '\r' ∉ chunkText st n role content finish := by
  have hdelta : '\r' ∉ deltaText role content := by
    refine noReturn_objText _ ?_
    simp only [List.forall_mem_cons]
    exact ⟨⟨by decide, noReturn_optText role⟩, ⟨by decide, noReturn_optText content⟩,
      List.forall_mem_nil _⟩
  have hchoice : '\r' ∉ chunkChoiceText role content finish := by
    refine noReturn_objText _ ?_
    simp only [List.forall_mem_cons]
    exact ⟨⟨by decide, by decide⟩, ⟨by decide, hdelta⟩, ⟨by decide, noReturn_optText finish⟩,
      List.forall_mem_nil _⟩
  have hchoices : '\r' ∉ arrText .compact [chunkChoiceText role content finish] := by
    simp only [arrText, elementsText, List.mem_append, List.mem_cons, not_or]
    exact ⟨by decide, hchoice, by decide, List.not_mem_nil⟩
  refine noReturn_objText _ ?_
  simp only [List.forall_mem_cons]
  exact ⟨⟨by decide, noReturn_strText _⟩, ⟨by decide, noReturn_strText _⟩,
    ⟨by decide, noReturn_oneLine (oneLine_intText _)⟩, ⟨by decide, noReturn_strText _⟩,
    ⟨by decide, hchoices⟩, List.forall_mem_nil _⟩

/-- The encoder leaves no carriage return. -/
theorem noReturn_dataLine (st : Stamp) (n : Nat) (f : OpenAIFrame) : '\r' ∉ dataLine st n f := by
  have htag : '\r' ∉ dataLead := by decide
  cases f with
  | chunk role content finish =>
    exact fun hmem => (List.mem_append.mp hmem).elim htag
      (noReturn_chunkText st n role content finish)
  | error message type =>
    refine fun hmem => (List.mem_append.mp hmem).elim htag (noReturn_objText _ ?_)
    simp only [List.forall_mem_cons]
    refine ⟨⟨by decide, noReturn_objText _ ?_⟩, List.forall_mem_nil _⟩
    simp only [List.forall_mem_cons]
    exact ⟨⟨by decide, noReturn_strText _⟩, ⟨by decide, noReturn_strText _⟩, ⟨by decide, by decide⟩,
      List.forall_mem_nil _⟩
  | done =>
    have hdone : '\r' ∉ dataLead ++ doneMarker := by decide
    exact hdone

theorem splitlines_sseText (st : Stamp) (n : Nat) (fs : List OpenAIFrame) :
    splitlines (sseText st n fs) = sseLines st n fs := by
  induction fs generalizing n with
  | nil => rfl
  | cons f fs ih =>
    have htext : sseText st n (f :: fs) =
        dataLine st n f ++ '\n' :: ([] ++ '\n' :: sseText st (n + 1) fs) := by
      rw [sseText, List.append_assoc]
      rfl
    rw [htext, splitlines_append (noReturn_dataLine st n f), splitlines_append List.not_mem_nil, ih]
    rfl

/-! ## What the other engine reads -/

section Relay

variable {F : Type} {num : Numbers F} {st : Stamp}

theorem readLines_chunk {role content finish : Option String} (hmodel : Unbroken st.model.toList)
    (hrole : ∀ s ∈ role, Unbroken s.toList) (hcontent : ∀ s ∈ content, Unbroken s.toList)
    (hfinish : ∀ s ∈ finish, Unbroken s.toList) (n : Nat) (fs : List OpenAIFrame)
    (outcome : RemoteOutcome) :
    readLines num (sseLines st n (.chunk role content finish :: fs)) outcome =
      let outcome :=
  { outcome with finish := (finishOf (optValue finish : Value F)).getD outcome.finish }
      readItems outcome (readLines num (sseLines st (n + 1) fs) outcome)
        (contentItems content) := by
  have hline := oneLine_chunk st n role content finish hmodel hrole hcontent hfinish
  have hempty : (sseData num [] : SseData F) = .other := rfl
  rewrite [sseLines, dataLine_chunk, List.splitOnP_eq_singleton hline, List.singleton_append,
    readLines, parseSseLine_chunk]
  dsimp only
  rw [readLines_other hempty]

theorem readLines_done (n : Nat) (fs : List OpenAIFrame) (outcome : RemoteOutcome) :
    readLines num (sseLines st n (.done :: fs)) outcome = ⟨[], .done, outcome⟩ := by
  have hline : OneLine (dataLead ++ doneMarker) := by decide
  rewrite [sseLines, dataLine_done, List.splitOnP_eq_singleton hline]
  rfl

/-- The chunk of a token. -/
def tokenFrame (text : String) : OpenAIFrame := .chunk none (some text) none

/-- What ends a response. -/
def lastFrames (finish : FinishReason) : List OpenAIFrame :=
  [.chunk none none (some (finishReason finish)), .done]

def sentFrames (tokens : List String) (finish : FinishReason) : List OpenAIFrame :=
  .chunk (some "assistant") none none :: (tokens.map tokenFrame ++ lastFrames finish)

theorem unbroken_none : ∀ s ∈ (none : Option String), Unbroken s.toList := fun _ h => by cases h

theorem unbroken_some {text : String} (h : Unbroken text.toList) :
    ∀ s ∈ some text, Unbroken s.toList := by
  rintro s ⟨⟩
  exact h

theorem unbroken_finishReason (finish : FinishReason) :
    ∀ s ∈ some (finishReason finish), Unbroken s.toList := by
  refine unbroken_some ?_
  cases finish <;> decide

theorem readLines_lastFrames (hmodel : Unbroken st.model.toList) {finish : FinishReason}
    (hfinish : finish.complete = true) (n : Nat) (outcome : RemoteOutcome) :
    readLines num (sseLines st n (lastFrames finish)) outcome =
      ⟨[], .done, { outcome with finish := finish }⟩ := by
  have hknown : finishOf (optValue (some (finishReason finish)) : Value F) = some finish := by
    cases finish with
    | length => rfl
    | stop => rfl
    | _ => cases hfinish
  rw [lastFrames, readLines_chunk hmodel unbroken_none unbroken_none (unbroken_finishReason finish)]
  dsimp only
  rw [readLines_done, hknown]
  rfl

theorem readLines_tokens (hmodel : Unbroken st.model.toList) {tokens : List String}
    (hne : ∀ text ∈ tokens, text ≠ "") (htokens : ∀ text ∈ tokens, Unbroken text.toList)
    {finish : FinishReason} (hfinish : finish.complete = true) (n : Nat) (outcome : RemoteOutcome) :
    readLines num (sseLines st n (tokens.map tokenFrame ++ lastFrames finish)) outcome =
      ⟨tokens.map fun text => .str (Text.ofString text), .done,
      { outcome with finish := finish }⟩ := by
  induction tokens generalizing n with
  | nil => exact readLines_lastFrames hmodel hfinish n outcome
  | cons text tokens ih =>
    have htext := unbroken_some (htokens text (List.mem_cons_self ..))
    have hitems : (contentItems (some text) : List (SseItem F)) =
        [.text (.str (Text.ofString text))] :=
      if_neg (hne text (List.mem_cons_self ..))
    have ih := ih (fun t ht => hne t (List.mem_cons_of_mem text ht))
      (fun t ht => htokens t (List.mem_cons_of_mem text ht)) (n + 1)
    have hchunk := @readLines_chunk _ num st _ _ _ hmodel unbroken_none htext unbroken_none n
      (tokens.map tokenFrame ++ lastFrames finish) outcome
    refine hchunk.trans ?_
    show readItems outcome (readLines num _ outcome) _ = _
    rw [ih, hitems]
    rfl

theorem length_readItems_le (outcome : RemoteOutcome) (next : Reading F) (content : Option String) :
    (readItems outcome next (contentItems content)).texts.length ≤ next.texts.length + 1 := by
  cases content with
  | none => exact Nat.le_succ _
  | some text =>
    by_cases htext : text = ""
    · rw [contentItems, if_pos htext]
      exact Nat.le_succ _
    · rw [contentItems, if_neg htext]
      exact Nat.le_refl _

theorem readLines_tornLine {before s after : List Char} (hs : ¬ Unbroken s)
    (hbefore : OneLine before) (hafter : OneLine after) (hfirst : ∀ s₀,
      (sseData num (before ++ escapeString s₀) : SseData F) = .other)
    (hlast : ∀ sₙ, (sseData num (escapeString sₙ ++ after) : SseData F) = .other)
    (rest : List (List Char)) (outcome : RemoteOutcome) :
    readLines num ((before ++ (escapeString s ++ after)).splitOnP isLineBreak ++
      [] :: rest) outcome =
      if (readLines num (innerLines s) outcome).ended = .exhausted then readLines num rest outcome
      else ⟨[], (readLines num (innerLines s) outcome).ended, outcome⟩ := by
  obtain ⟨s₀, sₙ, hsₙ, hinner, hsplit⟩ := splitOnP_torn hs
  have hempty : (sseData num [] : SseData F) = .other := rfl
  have hend := oneLine_append.mpr ⟨oneLine_escapeString hsₙ, hafter⟩
  rw [hsplit _ _ hbefore, List.splitOnP_eq_singleton hend, List.cons_append,
    readLines_other (hfirst s₀), List.append_assoc,
    readLines_mute fun p hp => mute_shielded (hinner p hp), List.singleton_append,
    readLines_other (hlast sₙ), readLines_other hempty]

theorem readLines_tornToken (hmodel : Unbroken st.model.toList) {text : String}
    (htext : ¬ Unbroken text.toList) (n : Nat) (fs : List OpenAIFrame) (outcome : RemoteOutcome) :
    readLines num (sseLines st n (tokenFrame text :: fs)) outcome =
      if (readLines num (innerLines text.toList) outcome).ended = .exhausted then
        readLines num (sseLines st (n + 1) fs) outcome
      else ⟨[], (readLines num (innerLines text.toList) outcome).ended, outcome⟩ := by
  have hline : dataLead ++ chunkText st n none (some text) none =
      (chunkHead st n ++ (escapeString st.model.toList ++ (chunkMid none ++ ['"']))) ++
        (escapeString text.toList ++ '"' :: chunkTail none) := by
    rw [chunkText_eq]
    simp [optText, strText]
  have hbefore : OneLine (chunkHead st n ++
      (escapeString st.model.toList ++ (chunkMid none ++ ['"']))) :=
    oneLine_append.mpr ⟨oneLine_chunkHead st n, oneLine_append.mpr ⟨oneLine_escapeString hmodel,
      oneLine_append.mpr ⟨oneLine_chunkMid none unbroken_none, by decide⟩⟩⟩
  have hafter : OneLine ('"' :: chunkTail none) :=
    oneLine_cons.mpr ⟨rfl, oneLine_chunkTail none unbroken_none⟩
  rewrite [tokenFrame, sseLines, dataLine_chunk, hline]
  refine readLines_tornLine htext hbefore hafter (fun s₀ => sseData_unterminated ?_)
    (fun sₙ => sseData_tail none (shielded_escapeString sₙ)) _ outcome
  rw [List.foldl_append, List.foldl_append, List.foldl_append, List.foldl_append, foldl_chunkHead,
    foldl_next_escapeString, foldl_chunkMid]
  show (escapeString s₀).foldl Lex.next .quoted ≠ .bare
  rw [foldl_next_escapeString]
  exact fun h => by cases h

/-- At most the tokens that are not torn are read. -/
theorem length_texts_le (hmodel : Unbroken st.model.toList) (tokens : List String)
    {finish : FinishReason} (hfinish : finish.complete = true) (n : Nat) (outcome : RemoteOutcome) :
    (readLines num (sseLines st n
      (tokens.map tokenFrame ++ lastFrames finish)) outcome).texts.length ≤
      tokens.countP fun text => Unbroken text.toList := by
  induction tokens generalizing n with
  | nil =>
    rw [List.map_nil, List.nil_append, readLines_lastFrames hmodel hfinish]
    exact Nat.zero_le _
  | cons text tokens ih =>
    have ih := ih (n + 1)
    by_cases htext : Unbroken text.toList
    · have hchunk := @readLines_chunk _ num st _ _ _ hmodel unbroken_none
          (unbroken_some htext) unbroken_none n
        (tokens.map tokenFrame ++ lastFrames finish) outcome
      have hle := length_readItems_le outcome
        (readLines num (sseLines st (n + 1) (tokens.map tokenFrame ++ lastFrames finish)) outcome)
          (some text)
      rw [List.countP_cons_of_pos (by simpa using htext)]
      calc _ = _ := congrArg (fun reading => reading.texts.length) hchunk
        _ ≤ _ := hle
        _ ≤ _ := Nat.add_le_add_right ih 1
    · rw [List.countP_cons_of_neg (by simpa using htext)]
      rw [List.map_cons, List.cons_append, readLines_tornToken hmodel htext]
      split
      · exact ih
      · exact Nat.zero_le _

/-- A chunk without content is read as the lines within the model name are, when that is torn. -/
theorem readLines_tornChunk (hmodel : ¬ Unbroken st.model.toList) {role finish : Option String}
    (hrole : ∀ s ∈ role, Unbroken s.toList) (hfinish : ∀ s ∈ finish, Unbroken s.toList) (n : Nat)
    (fs : List OpenAIFrame) (outcome : RemoteOutcome) :
    readLines num (sseLines st n (.chunk role none finish :: fs)) outcome =
      if (readLines num (innerLines st.model.toList) outcome).ended = .exhausted then
        readLines num (sseLines st (n + 1) fs) outcome
      else ⟨[], (readLines num (innerLines st.model.toList) outcome).ended, outcome⟩ := by
  have hafter : OneLine (chunkMid role ++ (optText none ++ chunkTail finish)) :=
    oneLine_append.mpr ⟨oneLine_chunkMid role hrole,
      oneLine_append.mpr ⟨by decide, oneLine_chunkTail finish hfinish⟩⟩
  rewrite [sseLines, dataLine_chunk, chunkText_eq]
  exact readLines_tornLine hmodel (oneLine_chunkHead st n) hafter (sseData_head st n)
    (fun sₙ => sseData_mid role (shielded_escapeString sₙ) _) _ outcome

/-- A chunk is passed over when the model name is torn, or the reading ends within it. -/
theorem readLines_torn (hmodel : ¬ Unbroken st.model.toList) (content : Option String)
    {finish : Option String} (hfinish : ∀ s ∈ finish, Unbroken s.toList) (n : Nat)
      (fs : List OpenAIFrame) (outcome : RemoteOutcome) :
    readLines num (sseLines st n (.chunk none content finish :: fs)) outcome =
        readLines num (sseLines st (n + 1) fs) outcome ∨
      (readLines num (sseLines st n (.chunk none content finish :: fs)) outcome).texts = [] ∧
        (readLines num (sseLines st n (.chunk none content finish :: fs)) outcome).outcome =
        outcome := by
  have hempty : (sseData num [] : SseData F) = .other := rfl
  rewrite [sseLines, dataLine_chunk,
    readLines_mute (mute_pieces st n none content finish hmodel unbroken_none hfinish)]
  split
  · exact .inl (readLines_other hempty _ _)
  · exact .inr ⟨rfl, rfl⟩

theorem readLines_tornModel (hmodel : ¬ Unbroken st.model.toList) (tokens : List String)
    (finish : FinishReason) (n : Nat) (outcome : RemoteOutcome) :
    (readLines num (sseLines st n (tokens.map tokenFrame ++ lastFrames finish)) outcome).texts =
      [] ∧
      (readLines num (sseLines st n (tokens.map tokenFrame ++ lastFrames finish)) outcome).outcome =
        outcome := by
  induction tokens generalizing n with
  | nil =>
    rcases @readLines_torn _ num st hmodel none _ (unbroken_finishReason finish) n [.done] outcome
      with heq | hend
    · have hdone := heq.trans (readLines_done (n + 1) [] outcome)
      exact ⟨congrArg Reading.texts hdone, congrArg Reading.outcome hdone⟩
    · exact hend
  | cons text tokens ih =>
    rcases @readLines_torn _ num st hmodel (some text) _ unbroken_none n
      (tokens.map tokenFrame ++ lastFrames finish) outcome with heq | hend
    · have ih := ih (n + 1)
      rw [← heq] at ih
      exact ih
    · exact hend

theorem unbroken_assistant : ∀ s ∈ some "assistant", Unbroken s.toList := unbroken_some (by decide)

theorem readLines_tornFrames (hmodel : ¬ Unbroken st.model.toList) (tokens : List String)
    (finish : FinishReason) (outcome : RemoteOutcome) :
    (readLines num (sseLines st 0 (sentFrames tokens finish)) outcome).texts = [] ∧
      (readLines num (sseLines st 0 (sentFrames tokens finish)) outcome).outcome = outcome := by
  rw [sentFrames, readLines_tornChunk hmodel unbroken_assistant unbroken_none]
  split
  · exact readLines_tornModel hmodel tokens finish 1 outcome
  · exact ⟨rfl, rfl⟩

/-- A response without tokens then ends as the lines within the model name do. -/
theorem ended_tornFrames (hmodel : ¬ Unbroken st.model.toList) (finish : FinishReason)
    (outcome : RemoteOutcome) :
    (readLines num (sseLines st 0 (sentFrames [] finish)) outcome).ended =
      if (readLines num (innerLines st.model.toList) outcome).ended = .exhausted then .done
      else (readLines num (innerLines st.model.toList) outcome).ended := by
  rw [sentFrames, readLines_tornChunk hmodel unbroken_assistant unbroken_none]
  split
  · rename_i hexhausted
    rw [List.map_nil, List.nil_append, lastFrames,
      readLines_tornChunk hmodel unbroken_none (unbroken_finishReason finish), if_pos hexhausted,
      readLines_done]
  · rfl

/-- The text that the OpenAI edge sends. -/
def sentText (st : Stamp) (env : EdgeEnv) (s : Script) : List Char :=
  sseText st 0 ((frames env .openai s).filterMap fun
    | .openai f => some f
    | _ => none)

/-- The other engine reads the tokens, then the end marker, and knows the finish reason. -/
structure Relayed (num : Numbers F) (tokens : List String) (finish : FinishReason)
    (text : List Char) :
    Prop where
  texts : (readLines num (splitlines text) {}).texts = tokens.map fun token => .str
    (Text.ofString token)
  ended : (readLines num (splitlines text) {}).ended = .done
  finish : (readLines num (splitlines text) {}).outcome.finish = finish

theorem sentText_eq {r : GenerationResult} {env : EdgeEnv}
    (henv : ∀ past op, CalmWith r ⟨op, env past op⟩) {s : Script}
      (hfin : s.fin = none) (st : Stamp) :
    splitlines (sentText st env s) = sseLines st 0 (sentFrames s.tokens r.finishReason) := by
  have hframes : frames env .openai s = openaiFrames s.tokens r.finishReason :=
    ((shows_streamingResponse (openaiSse_shows hfin)).run henv []).1
  rw [sentText, splitlines_sseText, hframes]
  congr 1
  simp only [openaiFrames, List.map_eq_flatMap, List.cons_append, List.filterMap_cons,
    List.filterMap_append, List.filterMap_flatMap]
  simp [sentFrames, lastFrames, List.map_eq_flatMap, tokenFrame]

theorem readLines_sentFrames (hmodel : Unbroken st.model.toList) (tokens : List String)
    (finish : FinishReason) (outcome : RemoteOutcome) :
    readLines num (sseLines st 0 (sentFrames tokens finish)) outcome =
      readLines num (sseLines st 1 (tokens.map tokenFrame ++ lastFrames finish)) outcome := by
  exact readLines_chunk hmodel unbroken_assistant unbroken_none unbroken_none 0 _ outcome

/-- For every list of non-empty tokens and every finish reason that is complete, on every request on
which nothing goes wrong: the other engine reads exactly the tokens, the end marker and the finish
reason if and only if neither the model name nor a token has a line boundary that the encoder leaves
as it is. The one exception is a response without tokens and with the finish reason that is the
default: of that nothing needs to be read, so it is enough that no line within the model name makes
the parser raise. -/
theorem relayed_iff (num : Numbers F) (st : Stamp) {tokens : List String}
    (hne : ∀ token ∈ tokens, token ≠ "") {r : GenerationResult}
      (hcomplete : r.finishReason.complete = true) {env : EdgeEnv} (henv : ∀ past op,
      CalmWith r ⟨op, env past op⟩) (promptTokens : Int) (known : Bool) :
    Relayed num tokens r.finishReason (sentText st env ⟨tokens, none, promptTokens, known⟩) ↔
      Unbroken st.model.toList ∧ (∀ token ∈ tokens, Unbroken token.toList) ∨
      tokens = [] ∧ r.finishReason = .stop ∧
        ∀ message, (readLines num (innerLines st.model.toList) {}).ended ≠ .raised message := by
  have hlines := sentText_eq henv (s := ⟨tokens, none, promptTokens, known⟩) rfl st
  by_cases hmodel : Unbroken st.model.toList
  · have hread := @readLines_sentFrames _ num st hmodel tokens r.finishReason {}
    constructor
    · intro h
      have htexts := h.texts
      rw [hlines, hread] at htexts
      have hle := @length_texts_le _ num st hmodel tokens _ hcomplete 1 {}
      rw [htexts, List.length_map] at hle
      refine .inl ⟨hmodel, fun token htoken => ?_⟩
      have hcount := List.countP_eq_length.mp
          (Nat.le_antisymm List.countP_le_length hle) token htoken
      simpa using hcount
    · intro h
      have htokens : ∀ token ∈ tokens, Unbroken token.toList := by
        rcases h with ⟨-, htokens⟩ | ⟨rfl, -, -⟩
        · exact htokens
        · exact List.forall_mem_nil _
      have hall := hread.trans (readLines_tokens hmodel hne htokens hcomplete 1 {})
      rw [← hlines] at hall
      exact ⟨congrArg Reading.texts hall, congrArg Reading.ended hall,
        congrArg (fun reading => reading.outcome.finish) hall⟩
  · obtain ⟨htexts, houtcome⟩ := @readLines_tornFrames _ num st hmodel tokens r.finishReason {}
    constructor
    · intro h
      have htokens := h.texts
      have hended := h.ended
      have hfinish := h.finish
      rw [hlines, htexts] at htokens
      rw [hlines] at hfinish
      have hnil := List.map_eq_nil_iff.mp htokens.symm
      subst hnil
      have hstop := hfinish.symm.trans (congrArg RemoteOutcome.finish houtcome)
      refine .inr ⟨rfl, hstop, fun message hraised => ?_⟩
      rw [hlines, ended_tornFrames hmodel, hraised, if_neg (by simp)] at hended
      cases hended
    · intro h
      obtain ⟨rfl, hstop, hquiet⟩ := h.resolve_left fun hall => hmodel hall.1
      rw [← hlines] at htexts houtcome
      refine ⟨htexts, ?_, by rw [houtcome, hstop]⟩
      rw [hlines, ended_tornFrames hmodel]
      cases hend : (readLines num (innerLines st.model.toList) {}).ended with
      | done => rfl
      | exhausted => rfl
      | raised message => exact absurd hend (hquiet message)

end Relay

def plainStamp : Stamp := ⟨(List.finRange 16).take 12, "m", fun n => 1700000000 + n⟩

/-- Two tokens, one of them not ASCII. -/
theorem relayed_iff_twoTokens :
    Relayed Numbers.exact ["é", "\n\""] .length
      (sentText plainStamp (calm ⟨"é\n\"", .length, 3, 2⟩) ⟨["é", "\n\""], none, 3, true⟩) := by
  have hplain : Unbroken plainStamp.model.toList ∧ ∀ token ∈ ["é", "\n\""],
      Unbroken token.toList := by
    decide
  exact (relayed_iff Numbers.exact plainStamp (by decide) rfl
    (calm_calmWith ⟨"é\n\"", .length, 3, 2⟩) 3 true).mpr (.inl hplain)

/-- A token with a line separator is lost, and nothing shows it. -/
theorem line_separator_lost :
    let text := sentText plainStamp (calm ⟨"a\u2028b", .stop, 3, 1⟩) ⟨["a\u2028b"], none, 3, true⟩
    readLines Numbers.exact (splitlines text) {} = ⟨[], .done, {}⟩ ∧
    ¬ Relayed Numbers.exact ["a\u2028b"] .stop text := by
  intro text
  have hlines : splitlines text = sseLines plainStamp 0 (sentFrames ["a\u2028b"] .stop) :=
    sentText_eq (calm_calmWith ⟨"a\u2028b", .stop, 3, 1⟩) rfl plainStamp
  have hmodel : Unbroken plainStamp.model.toList := by decide
  have htoken : "a\u2028b".toList = ['a', '\u2028', 'b'] := String.toList_ofList
  have htorn : ¬ Unbroken "a\u2028b".toList := by
    rw [htoken]
    decide
  have hinner : innerLines "a\u2028b".toList = [] := by
    rw [htoken]
    rfl
  have hframes : ["a\u2028b"].map tokenFrame ++ lastFrames .stop =
      tokenFrame "a\u2028b" :: lastFrames .stop := rfl
  have hlost : readLines Numbers.exact (splitlines text) {} = ⟨[], .done, {}⟩ := by
    rw [hlines, readLines_sentFrames hmodel, hframes, readLines_tornToken hmodel htorn, hinner,
      if_pos (show (readLines Numbers.exact [] {}).ended = .exhausted from rfl),
      readLines_lastFrames hmodel rfl]
  refine ⟨hlost, fun h => ?_⟩
  have htexts := h.texts
  rw [hlost] at htexts
  cases htexts

end Edge
end InferenceEngine
