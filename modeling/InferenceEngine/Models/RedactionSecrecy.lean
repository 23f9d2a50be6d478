import InferenceEngine.Lib.UriCoding
import InferenceEngine.Models.RedactionPasses

/-!
# Models.RedactionSecrecy

What a redacted text says about the credential in it. Two values of a parameter are told apart by
what the text is redacted to; a credential is kept secret where there is one result for all of its
values.

* `sub_param_credential`, `url_hidden`: what each pass leaves of a parameter with a sensitive name,
  with a `Veil` over the values that are searched for credentials of their own.
* `redactWith_hidden`: one result for all values, in a text redacted as a whole.
-/

namespace InferenceEngine
namespace Redaction

variable {u : Unicode} {nested : List Char → List Char}

/-- A query of one parameter. -/
def query (name value : List Char) : List Char := '?' :: (name ++ '=' :: value)

/-- The name of a parameter, decoded a sensitive one. -/
structure Sensitive (u : Unicode) (name : List Char) : Prop where
  name_ne : name ≠ []
  name_char : ∀ c ∈ name, nameChar c = true
  sensitive : isSensitiveRaw u name = true

/-- A parameter of a sensitive name, and a value of it. -/
structure Credential (u : Unicode) (name value : List Char) : Prop extends Sensitive u name where
  value_ne : value ≠ []
  value_char : ∀ c ∈ value, valueChar c = true
  value_end : ∀ c ∈ value.getLast?, c ∉ closers

/-- What follows a value does not go on with it. -/
def EndsValue (q : List Char) : Prop := ∀ c ∈ q.head?, valueChar c = false

/-- A decoded value with the parameter at its end is redacted to what `veil` says, and that is not
the value. -/
def Veiled (nested : List Char → List Char) (veil : List Char → List Char)
    (name value : List Char) : Prop :=
  ∀ w, nested (w ++ query name value) = veil w ∧ veil w ≠ w ++ query name value

variable {name value a b : List Char} {c : Char}

theorem append_query (a name value q : List Char) :
    a ++ query name value ++ q = a ++ '?' :: (name ++ '=' :: (value ++ q)) := by
  simp [query]

section Sensitive

theorem isSensitive_append (h : isSensitive u b = true) (a : List Char) :
    isSensitive u (a ++ '?' :: b) = true := by
  obtain ⟨hint, hmem, hin⟩ := List.any_eq_true.mp h
  rw [decide_eq_true_eq] at hin
  refine List.any_eq_true.mpr ⟨hint, hmem, ?_⟩
  rw [decide_eq_true_eq, u.lower_split]
  exact hin.trans (List.suffix_cons ..).isInfix |>.trans (List.suffix_append ..).isInfix

theorem question : Percent.Delimiter '?' := ⟨by decide, by decide, by decide, by decide⟩

theorem equals : Percent.Delimiter '=' := ⟨by decide, by decide, by decide, by decide⟩

theorem isSensitiveRaw_append (h : isSensitiveRaw u b = true) (a : List Char) :
    isSensitiveRaw u (a ++ '?' :: b) = true := by
  unfold isSensitiveRaw at h ⊢
  rw [Percent.unquotePlus_append question]
  exact isSensitive_append h _

/-- A decoded value with a parameter at its end has the decoded parameter at its end. -/
theorem unquotePlus_query (a name value : List Char) :
    Percent.unquotePlus (a ++ query name value) =
      Percent.unquotePlus a ++ query (Percent.unquotePlus name) (Percent.unquotePlus value) := by
  unfold query
  rw [Percent.unquotePlus_append question, Percent.unquotePlus_append equals]

end Sensitive

section Params

/-- Nothing is split off a value that ends in the credential. -/
theorem Credential.splitValueTrailing (h : Credential u name value) (a : List Char) :
    splitValueTrailing (a ++ value) = (a ++ value, []) := by
  have hne : a ++ value ≠ [] := by simp [h.value_ne]
  have hlast : ∀ c ∈ (a ++ value).getLast?, decide (c ∈ closers) = false := by
    rw [List.getLast?_append_of_ne_nil _ h.value_ne]
    exact fun c hc => decide_eq_false (h.value_end c hc)
  obtain ⟨hdrop, htake⟩ := Py.rdropWhile_append hne hlast []
  rw [List.append_nil] at hdrop htake
  unfold Redaction.splitValueTrailing
  rw [hdrop, htake]
  simp

theorem Credential.query_end (h : Credential u name value) (a : List Char) :
    ∀ c ∈ (a ++ query name value).getLast?, c ∉ closers := by
  have hshape : a ++ query name value = a ++ '?' :: (name ++ ['=']) ++ value := by simp [query]
  rw [hshape, List.getLast?_append_of_ne_nil _ h.value_ne]
  exact h.value_end

theorem punctuation_closers : ∀ c ∈ punctuation, c ∈ closers := Py.forall_of_all (by decide)

theorem Credential.value_of_query (h : Credential u name value) {w : List Char}
    (hw : ∀ c ∈ w, valueChar c = true) : ∀ c ∈ w ++ query name value, valueChar c = true := by
  intro c hc
  simp only [query, List.mem_append, List.mem_cons] at hc
  rcases hc with hc | rfl | hc | rfl | hc
  · exact hw c hc
  · decide
  · exact valueChar_of_nameChar (h.name_char c hc)
  · decide
  · exact h.value_char c hc

theorem Credential.written (h : Credential u name value) (sep : Char) {key : List Char}
    (hkey : isSensitiveRaw u key = true) :
    written u nested sep key value = sep :: key ++ '=' :: mask := by
  have hsplit := h.splitValueTrailing []
  rw [List.nil_append] at hsplit
  unfold Redaction.written
  rw [hsplit]
  dsimp only
  rw [if_pos ⟨h.value_ne, .inl hkey⟩, List.append_nil]

/-- A parameter with a credential at the end of its value is masked as a whole, or not at all. -/
theorem Credential.written_value (h : Credential u name value) (sep : Char) (key w : List Char) :
    Redaction.written u nested sep key (w ++ query name value) = sep :: key ++ '=' ::
      (if isSensitiveRaw u key = true ∨ nested (Percent.unquotePlus (w ++ query name value)) ≠
          Percent.unquotePlus (w ++ query name value) then mask else w ++ query name value) := by
  have hshape : w ++ query name value = w ++ '?' :: (name ++ ['=']) ++ value := by simp [query]
  have hsplit := h.splitValueTrailing (w ++ '?' :: (name ++ ['=']))
  have hne : w ++ query name value ≠ [] := by simp [query]
  rw [← hshape] at hsplit
  unfold Redaction.written
  rw [hsplit]
  dsimp only
  simp only [hne, ne_eq, not_false_eq_true, true_and, List.append_nil]
  split <;> simp

/-- A parameter in whose value a text ends: the first one that goes on at its end. -/
structure Encloses (a : List Char) (sep : Char) (key w : List Char) : Prop where
  openness : ValueOpen sep key w
  suffix : sep :: key ++ '=' :: w <:+ a
  first : ∀ x, x <:+ a → ParamOpen x → x <:+ sep :: key ++ '=' :: w

theorem Encloses.unique {sep sep' : Char} {key key' w w' : List Char} (h : Encloses a sep key w)
    (h' : Encloses a sep' key' w') : key = key' ∧ w = w' := by
  have hle := h'.first _ h.suffix (.value h.openness)
  have hge := h.first _ h'.suffix (.value h'.openness)
  have heq := hle.eq_of_length (Nat.le_antisymm hle.length_le hge.length_le)
  have hno {key : List Char} (hkey : ∀ c ∈ key, nameChar c = true) : '=' ∉ key := fun hmem =>
    absurd (hkey _ hmem) (by decide)
  have hpartition := Py.partition_append (hno h.openness.key_char) w
  rw [show key ++ '=' :: w = key' ++ '=' :: w' from (List.cons.inj heq).2,
    Py.partition_append (hno h'.openness.key_char)] at hpartition
  cases hpartition
  exact ⟨rfl, rfl⟩

/-- The parameter is not left as it is: it stands in no value, or in that of a sensitive name, or in
one that the search for nested credentials changes. -/
def Masked (u : Unicode) (nested : List Char → List Char) (a name value : List Char) : Prop :=
  ∀ sep key w, Encloses a sep key w → isSensitiveRaw u key = true ∨
    nested (Percent.unquotePlus (w ++ query name value)) ≠
      Percent.unquotePlus (w ++ query name value)

/-- After the third pass, a mask stands where the credential stood, or the value that it ends is as
it was. -/
theorem sub_param_credential (name : List Char) {q : List Char} (hq : EndsValue q)
    (text : List Char) :
    ∃ z w, ∀ value, Credential u name value →
      (Masked u nested text name value →
        Py.sub (param u nested) (text ++ query name value ++ q) = z ++ mask ++
        Py.sub (param u nested) q) ∧
      (¬Masked u nested text name value → Py.sub (param u nested) (text ++ query name value ++ q) =
        z ++ (w ++ query name value) ++ Py.sub (param u nested) q) := by
  rcases @sub_param_query u nested text with ⟨hno, hsplit⟩ | ⟨a₁, a₂, z, rfl, hopen, hfirst, hsub⟩
  · -- the parameter is one of its own
    refine ⟨Py.sub (param u nested) text ++ '?' :: name ++ ['='], [],
      fun value h => ⟨fun _ => ?_, fun hmasked => ?_⟩⟩
    · have hmatch : Py.sub (param u nested) ('?' :: name ++ '=' :: (value ++ q)) = _ :=
        sub_param_match (.inl rfl) h.name_ne h.name_char h.value_char hq
      rw [append_query, hsplit, ← List.cons_append, hmatch, h.written '?' h.sensitive]
      simp
    · exact absurd (fun sep key w hin => absurd (.value hin.openness) (hno _ hin.suffix)) hmasked
  · cases hopen with
    | @name sep key hsep hkey =>
      -- its name is the end of another one
      refine ⟨z ++ sep :: key ++ '?' :: name ++ ['='], [],
        fun value h => ⟨fun _ => ?_, fun hmasked => ?_⟩⟩
      · have hname : ∀ c ∈ key ++ '?' :: name, nameChar c = true :=
          List.forall_mem_append.mpr ⟨hkey, List.forall_mem_cons.mpr ⟨by decide, h.name_char⟩⟩
        have hmatch : Py.sub (param u nested)
            (sep :: (key ++ '?' :: name) ++ '=' :: (value ++ q)) = _ :=
          sub_param_match hsep (by simp) hname h.value_char hq
        have happend : sep :: key ++ '?' :: (name ++ '=' :: (value ++ q)) =
            sep :: (key ++ '?' :: name) ++ '=' :: (value ++ q) := by
          simp
        rw [append_query, hsub, happend, hmatch,
          h.written sep (isSensitiveRaw_append h.sensitive key)]
        simp
      · refine absurd (fun sep' key' w hin => ?_) hmasked
        have hmem : '=' ∈ sep :: key :=
          (hfirst _ hin.suffix (.value hin.openness)).subset (by simp)
        rcases List.mem_cons.mp hmem with rfl | hmem
        · exact absurd hsep (by unfold isSep; decide)
        · exact absurd (hkey _ hmem) (by decide)
    | @value sep key w hvalue =>
      -- it stands at the end of the value of another one
      have hin : Encloses (a₁ ++ (sep :: key ++ '=' :: w)) sep key w :=
        ⟨hvalue, List.suffix_append .., hfirst⟩
      have hsubst (value : List Char) (h : Credential u name value) :=
        @sub_param_match u nested key sep _ _ hvalue.sep hvalue.key_ne hvalue.key_char
          (h.value_of_query hvalue.value_char) hq
      have happend (value : List Char) : sep :: key ++ '=' :: w ++ '?' ::
          (name ++ '=' :: (value ++ q)) =
          sep :: key ++ '=' :: (w ++ query name value ++ q) := by
        simp [query]
      refine ⟨z ++ sep :: key ++ ['='], w, fun value h => ⟨fun hmasked => ?_, fun hmasked => ?_⟩⟩
      · rw [append_query, hsub, happend, hsubst value h, h.written_value,
          if_pos (hmasked _ _ _ hin)]
        simp
      · have hnot : ¬(isSensitiveRaw u key = true ∨
            nested (Percent.unquotePlus (w ++ query name value)) ≠
            Percent.unquotePlus (w ++ query name value)) := by
          refine fun hor => hmasked fun sep' key' w' hin' => ?_
          obtain ⟨rfl, rfl⟩ := hin.unique hin'
          exact hor
        rw [append_query, hsub, happend, hsubst value h, h.written_value, if_neg hnot]
        simp

end Params

section Urls

/-- A fragment before the credential hides it. -/
theorem takeWhile_hash_append (run b t : List Char) :
    (run ++ '#' :: b ++ t).takeWhile (· ≠ '#') = run.takeWhile (· ≠ '#') := by
  rw [List.append_assoc, List.cons_append, Py.takeWhile_append_stop (by decide)]

theorem conservativeRedact_query (h : '#' ∉ a) (t : List Char) :
    conservativeRedact (a ++ '?' :: t) = (Py.sub userinfo a).takeWhile (· ≠ '?') ++
      '?' :: mask := by
  have hall : ∀ c ∈ a, decide (c ≠ '#') = true := fun c hc => by
    rw [decide_eq_true_eq]
    rintro rfl
    exact h hc
  have hcut : (a ++ '?' :: t).takeWhile (· ≠ '#') = a ++ '?' :: t.takeWhile (· ≠ '#') := by
    rw [List.takeWhile_append_of_pos hall]
    simp
  have hbarrier := userinfo_barrier (c := '?') (by decide) (by decide) (by decide)
  unfold conservativeRedact
  dsimp only
  rw [hcut, hbarrier.sub_append userinfo_bounded, if_pos (by simp),
    Py.takeWhile_append_stop (by decide)]

theorem conservativeRedact_hidden (a : List Char) :
    ∃ r, (∀ t, conservativeRedact (a ++ '?' :: t) = r) ∧ ('#' ∉ a → mask <:+ r) := by
  by_cases hhash : '#' ∈ a
  · obtain ⟨run, b, rfl, hrun⟩ := List.eq_append_cons_of_mem hhash
    refine ⟨conservativeRedact run, fun t => ?_, fun h => absurd hhash h⟩
    unfold conservativeRedact
    rw [takeWhile_hash_append]
  · exact ⟨_, conservativeRedact_query hhash,
      fun _ => (List.suffix_cons ..).trans (List.suffix_append ..)⟩

theorem splitOn_query {l q : List Char} (hl : '&' ∉ l) (hq : ∀ c ∈ q.head?, c = '&')
    (name : List Char) :
    ∃ after, (q = [] → after = []) ∧ ∀ value, '&' ∉ name ++ value →
      (l ++ (name ++ '=' :: value) ++ q).splitOn '&' = (l ++ (name ++ '=' :: value)) :: after := by
  have hno {value : List Char} (h : '&' ∉ name ++ value) : '&' ∉ l ++ (name ++ '=' :: value) := by
    simpa [hl] using h
  cases q with
  | nil =>
    refine ⟨[], fun _ => rfl, fun value h => ?_⟩
    rw [List.append_nil, List.splitOn_eq_singleton (hno h)]
  | cons c q =>
    obtain rfl := hq c rfl
    refine ⟨q.splitOn '&', fun h => (by cases h), fun value h => ?_⟩
    rw [List.splitOn_append_cons_self_of_not_mem (hno h)]

theorem parseQsl_of_splitOn {text f : List Char} (before after : List (List Char)) (hne : f ≠ [])
    (h : text.splitOn '&' = before ++ f :: after) :
    parseQsl text = (before.filter (· ≠ [])).map field ++ field f ::
      (after.filter (· ≠ [])).map field := by
  unfold parseQsl
  rw [h]
  simp [hne]

theorem parseQsl_query (a name : List Char) {q : List Char} (hq : ∀ c ∈ q.head?, c = '&') :
    ∃ before l after, (l = a ∨ ∃ a', a = a' ++ '&' :: l) ∧ (q = [] → after = []) ∧
      ∀ value, '&' ∉ name ++ value → parseQsl (a ++ (name ++ '=' :: value) ++ q) =
        before ++ field (l ++ (name ++ '=' :: value)) :: after := by
  rcases Py.run_or_last_stop (· ≠ '&') a with hall | ⟨b, c, l, rfl, hc, hl⟩
  · have ha : '&' ∉ a := fun h => by simpa using hall _ h
    obtain ⟨after, hafter, hsplit⟩ := splitOn_query ha hq name
    refine ⟨[], a, (after.filter (· ≠ [])).map field, .inl rfl, fun h => by rw [hafter h]; rfl,
      fun value h => ?_⟩
    exact parseQsl_of_splitOn [] after (by simp) (hsplit value h)
  · obtain rfl : c = '&' := by simpa using hc
    have hl' : '&' ∉ l := fun h => by simpa using hl _ h
    obtain ⟨after, hafter, hsplit⟩ := splitOn_query hl' hq name
    refine ⟨_, l, (after.filter (· ≠ [])).map field, .inr ⟨b, rfl⟩, fun h => by rw [hafter h]; rfl,
      fun value h => parseQsl_of_splitOn (b.splitOn '&') after (by simp) ?_⟩
    rw [List.append_assoc, List.append_assoc, List.cons_append, List.splitOn_append_cons_self,
      ← List.append_assoc l, hsplit value h]

/-- A field that ends in the credential shows nothing of it. -/
theorem shown_hidden (veil : List Char → List Char) (name : List Char) {l : List Char}
    (hl : l = [] ∨ ∃ l', l = l' ++ ['?']) :
    ∃ kv, ((∀ w, mask <:+ veil w) → mask <:+ kv.2) ∧
      ∀ value, Credential u name value →
        (l ≠ [] → Veiled nested veil (Percent.unquotePlus name) (Percent.unquotePlus value)) →
        shown u nested (field (l ++ (name ++ '=' :: value))) = kv := by
  rcases Py.run_or_stop (· ≠ '=') l with hall | ⟨key, c, w, rfl, hkey, hc⟩
  · -- the field's name ends in the name of the credential
    refine ⟨(Percent.unquotePlus (l ++ name), mask), fun _ => List.suffix_refl _,
      fun value h _ => ?_⟩
    have hsensitive : isSensitive u (Percent.unquotePlus (l ++ name)) = true := by
      rcases hl with rfl | ⟨l', rfl⟩
      · exact h.sensitive
      · rw [List.append_assoc]
        exact isSensitiveRaw_append h.sensitive l'
    have hno : '=' ∉ l ++ name := by
      intro hmem
      rcases List.mem_append.mp hmem with hmem | hmem
      · simpa using hall _ hmem
      · exact absurd (h.name_char _ hmem) (by decide)
    unfold field
    rw [← List.append_assoc, Py.partition_append hno, shown, if_pos hsensitive]
  · obtain rfl : c = '=' := by simpa using hc
    have hno : '=' ∉ key := fun h => by simpa using hkey _ h
    obtain ⟨w', rfl⟩ : ∃ w', w = w' ++ ['?'] := by
      rcases hl with hnil | ⟨l', hl'⟩
      · simp at hnil
      · obtain ⟨w', hw⟩ := Py.suffix_append_cons (l := ['?']) (by decide) ⟨l', hl'.symm⟩
        exact ⟨w', hw.symm⟩
    by_cases hsensitive : isSensitive u (Percent.unquotePlus key) = true
    · refine ⟨(Percent.unquotePlus key, mask), fun _ => List.suffix_refl _, fun value h _ => ?_⟩
      unfold field
      rw [List.append_assoc, List.cons_append, Py.partition_append hno, shown, if_pos hsensitive]
    · refine ⟨(Percent.unquotePlus key, veil (Percent.unquotePlus w')), fun hmask => hmask _,
        fun value h hveil => ?_⟩
      have hvalue : w' ++ ['?'] ++ (name ++ '=' :: value) = w' ++ query name value := by
        simp [query]
      unfold field
      rw [List.append_assoc, List.cons_append, Py.partition_append hno, shown, if_neg hsensitive,
        hvalue, unquotePlus_query, (hveil (by simp) _).1]

/-- A quoted text that ends in a mask does so as it was. -/
theorem mask_suffix_quotePlus {cs : List Char} (h : mask <:+ cs) :
    mask <:+ Percent.quotePlus ['*'] cs := by
  obtain ⟨x, rfl⟩ := h
  have hmask : Percent.quotePlus ['*'] mask = mask := by decide +kernel
  refine ⟨Percent.quotePlus ['*'] x, ?_⟩
  conv_lhs => rw [← hmask]
  exact (List.flatMap_append ..).symm

theorem mask_suffix_urlencode {kv : List Char × List Char} (h : mask <:+ kv.2)
    (before : List (List Char × List Char)) : mask <:+ urlencode (before ++ [kv]) := by
  have hpair : mask <:+ Percent.quotePlus ['*'] kv.1 ++ '=' :: Percent.quotePlus ['*'] kv.2 :=
    (mask_suffix_quotePlus h).trans ((List.suffix_cons ..).trans (List.suffix_append ..))
  unfold urlencode
  rw [List.map_append, List.map_singleton]
  induction before with
  | nil => simpa using hpair
  | cons d before ih =>
    rw [List.map_cons, List.cons_append, List.intercalate_cons_of_ne_nil (by simp)]
    exact ih.trans (List.suffix_append ..)

theorem mask_suffix_urlunsplit {scheme host path query : List Char} (h : mask <:+ query) :
    mask <:+ urlunsplit scheme host path query := by
  have hne : query ≠ [] := by
    rintro rfl
    exact absurd (List.suffix_nil.mp h) (by decide)
  unfold urlunsplit
  rw [if_pos hne]
  exact h.trans ((List.suffix_cons ..).trans (List.suffix_append ..))

/-- The query of a target that ends in one: what stands before it is a path, or a query that it is a
part of. -/
theorem partition_query (a : List Char) :
    ∃ path l, (l = [] ∨ '?' ∈ a ∧ ∃ l', l = l' ++ ['?']) ∧
      ∀ t, Py.partition '?' (a ++ '?' :: t) = (path, l ++ t) := by
  rcases Py.run_or_stop (· ≠ '?') a with hall | ⟨path, c, b, rfl, hpath, hc⟩
  · exact ⟨a, [], .inl rfl, Py.partition_append fun h => by simpa using hall _ h⟩
  · obtain rfl : c = '?' := by simpa using hc
    refine ⟨path, b ++ ['?'], .inr ⟨by simp, b, rfl⟩, fun t => ?_⟩
    rw [List.append_assoc, List.cons_append, Py.partition_append fun h => by simpa using hpath _ h]
    simp

/-- The query of a URL with the credential in it is written again without it. -/
theorem urlencode_hidden (veil : List Char → List Char) (name : List Char) {a q : List Char}
    (ha : a = [] ∨ ∃ a', a = a' ++ ['?']) (hq : ∀ c ∈ q.head?, c = '&') :
    ∃ r, (q = [] → (∀ w, mask <:+ veil w) → mask <:+ r) ∧
      ∀ value, Credential u name value →
        (a ≠ [] → Veiled nested veil (Percent.unquotePlus name) (Percent.unquotePlus value)) →
        urlencode ((parseQsl (a ++ (name ++ '=' :: value) ++ q)).map (shown u nested)) = r := by
  obtain ⟨before, l, after, hl, hafter, hparse⟩ := parseQsl_query a name hq
  have hlast : l = [] ∨ ∃ l', l = l' ++ ['?'] := by
    rcases hl with rfl | ⟨b, rfl⟩
    · exact ha
    · rcases ha with hnil | ⟨a', ha'⟩
      · simp at hnil
      · obtain ⟨l', hl'⟩ := Py.suffix_append_cons (l := ['?']) (by decide) ⟨a', ha'.symm⟩
        exact .inr ⟨l', hl'.symm⟩
  have hne (h : l ≠ []) : a ≠ [] := by
    rcases hl with rfl | ⟨b, rfl⟩
    · exact h
    · simp
  obtain ⟨kv, hkv, hshown⟩ := @shown_hidden u nested veil name l hlast
  refine ⟨urlencode (before.map (shown u nested) ++ kv :: after.map (shown u nested)),
    fun hend hmask => ?_, fun value h hveil => ?_⟩
  · rw [hafter hend]
    exact mask_suffix_urlencode (hkv hmask) _
  · have hamp : '&' ∉ name ++ value := by
      intro hmem
      rcases List.mem_append.mp hmem with hmem | hmem
      · exact absurd (h.name_char _ hmem) (by decide)
      · exact absurd (h.value_char _ hmem) (by decide)
    rw [hparse value hamp, List.map_append, List.map_cons, hshown value h fun hl => hveil (hne hl)]

/-- What follows the credential up to a fragment goes into the query with it. -/
theorem Credential.takeWhile_hash (h : Credential u name value) {target : List Char}
    (htarget : ∀ c ∈ target, decide (c ≠ '#') = true) (q : List Char) :
    (target ++ query name value ++ q).takeWhile (· ≠ '#') =
      target ++ query name value ++ q.takeWhile (· ≠ '#') := by
  refine List.takeWhile_append_of_pos (List.forall_mem_append.mpr ⟨htarget, fun c hc => ?_⟩)
  have hvalue := h.value_of_query (List.forall_mem_nil _) c hc
  rw [decide_eq_true_eq]
  rintro rfl
  exact absurd hvalue (by decide)

/-- A URL with the credential in its query is written again without it. -/
theorem redactUrl_hidden (veil : List Char → List Char) (name scheme body : List Char)
    {q : List Char} (hq : ∀ c ∈ q.head?, c = '&' ∨ c = '#') :
    ∃ r, (q = [] → '#' ∉ scheme ++ body → (∀ w, mask <:+ veil w) → mask <:+ r) ∧
      ∀ value, Credential u name value →
        ('?' ∈ body → Veiled nested veil (Percent.unquotePlus name) (Percent.unquotePlus value)) →
        redactUrl u nested scheme (body ++ query name value ++ q) = r := by
  have hnetloc (t : List Char) :
      (body ++ '?' :: t).takeWhile (· ∉ ['/', '?', '#']) = body.takeWhile (· ∉ ['/', '?', '#']) :=
    Py.takeWhile_append_stop (by decide) _ _
  have htarget (t : List Char) :
      (body ++ '?' :: t).dropWhile (· ∉ ['/', '?', '#']) =
        body.dropWhile (· ∉ ['/', '?', '#']) ++ '?' :: t :=
    Py.dropWhile_append_stop (by decide) _ _
  have hbody {c : Char} (hc : c ∈ body.dropWhile (· ∉ ['/', '?', '#'])) : c ∈ body :=
    (List.dropWhile_suffix _).subset hc
  cases hhost : redactNetloc u (body.takeWhile (· ∉ ['/', '?', '#'])) with
  | none =>
    obtain ⟨r, hr, hmask⟩ := conservativeRedact_hidden (scheme ++ marks ++ body)
    refine ⟨r, fun _ hhash _ => hmask ?_, fun value _ _ => ?_⟩
    · simpa [marks] using hhash
    · unfold redactUrl
      dsimp only
      rw [append_query, hnetloc, hhost, ← List.append_assoc]
      exact hr _
  | some host =>
    generalize body.dropWhile (· ∉ ['/', '?', '#']) = target at htarget hbody
    rcases Py.run_or_stop (· ≠ '#') target with hall | ⟨run, c, b, rfl, hrun, hc⟩
    · obtain ⟨path, a, ha, hpartition⟩ := partition_query target
      have hquery : ∀ c ∈ (q.takeWhile (· ≠ '#')).head?, c = '&' := by
        cases q with
        | nil => simp
        | cons c q => rcases hq c rfl with rfl | rfl <;> simp
      obtain ⟨r, hmask, hr⟩ :=
          @urlencode_hidden u nested veil name a _ (ha.imp_right fun h => h.2) hquery
      refine ⟨urlunsplit (scheme.map Char.toLower) host path r, fun hend _ hveil => ?_,
        fun value h hveil => ?_⟩
      · exact mask_suffix_urlunsplit (hmask (by rw [hend]; rfl) hveil)
      · have hcut := h.takeWhile_hash hall q
        rw [append_query, append_query] at hcut
        have hquery' := hr value h fun hne => hveil (hbody ((ha.resolve_left hne).1))
        rw [List.append_assoc, List.append_assoc, List.cons_append] at hquery'
        unfold redactUrl
        dsimp only
        rw [append_query, hnetloc, hhost, htarget, hcut, hpartition]
        dsimp only
        rw [hquery']
    · obtain rfl : c = '#' := by simpa using hc
      let kept := Py.partition '?' (run.takeWhile (· ≠ '#'))
      let shownQuery := urlencode ((parseQsl kept.2).map (shown u nested))
      refine ⟨urlunsplit (scheme.map Char.toLower) host kept.1 shownQuery,
        fun _ hhash _ => absurd (List.mem_append_right scheme (hbody (by simp))) hhash,
          fun value _ _ => ?_⟩
      unfold redactUrl
      dsimp only
      rw [append_query, hnetloc, hhost, htarget, takeWhile_hash_append]

end Urls

section Text

theorem delimiter_of_value (h : valueChar c = false) :
    schemeChar c = false ∧ c ≠ ':' ∧ c ≠ '/' := by
  simp only [valueChar, Bool.not_eq_false', Bool.or_eq_true, decide_eq_true_eq] at h
  rcases h with h | h
  · have hmarks : ∀ d ∈ ['&', '#', '"', '<', '>'], schemeChar d = false ∧ d ≠ ':' ∧ d ≠ '/' :=
      Py.forall_of_all (by decide)
    exact hmarks c h
  · refine ⟨schemeChar_of_isSpace h, ?_, ?_⟩ <;>
    · rintro rfl
      exact absurd h (by decide)

theorem EndsValue.userinfo {q : List Char} (h : EndsValue q) : EndsValue (Py.sub userinfo q) := by
  cases q with
  | nil => exact h
  | cons c q =>
    obtain ⟨-, hcolon, hslash⟩ := delimiter_of_value (h c rfl)
    rw [sub_userinfo_cons hcolon hslash]
    exact h

theorem EndsValue.url {q : List Char} (h : EndsValue q) : EndsValue (Py.sub (url u nested) q) := by
  cases q with
  | nil => exact h
  | cons c q =>
    obtain ⟨hscheme, hcolon, -⟩ := delimiter_of_value (h c rfl)
    rw [sub_url_cons hscheme hcolon]
    exact h

/-- Of what follows a value, a URL may go on over a `&` or a `#`. -/
theorem EndsValue.run {q : List Char} (h : EndsValue q) :
    ∀ c ∈ (q.takeWhile urlChar).head?, c = '&' ∨ c = '#' := by
  cases q with
  | nil =>
    intro c hc
    cases hc
  | cons d q =>
    have hd : valueChar d = false := h d rfl
    intro c hc
    rw [List.takeWhile_cons] at hc
    split at hc
    · next hurl =>
      cases hc
      simp only [valueChar, urlChar, Bool.not_eq_false', Bool.not_eq_true', Bool.or_eq_true,
        Bool.or_eq_false_iff, decide_eq_true_eq, decide_eq_false_iff_not, List.mem_cons,
          List.not_mem_nil,
        or_false, not_or] at hd hurl
      grind
    · cases hc

theorem EndsValue.run_prefix {q l : List Char} (h : EndsValue q) (hl : l <+: q.takeWhile urlChar) :
    ∀ c ∈ l.head?, c = '&' ∨ c = '#' := by
  obtain ⟨t, ht⟩ := hl
  cases l with
  | nil =>
    intro c hc
    cases hc
  | cons d l =>
    intro c hc
    cases hc
    exact h.run d (by rw [← ht]; rfl)

/-- The first pass leaves the parameter as it is. -/
theorem sub_userinfo_text (h : ¬marks <:+: query name value) {q : List Char} (hq : EndsValue q)
    (p : List Char) :
    Py.sub userinfo (p ++ query name value ++ q) =
      Py.sub userinfo p ++ query name value ++ Py.sub userinfo q := by
  have hbarrier := userinfo_barrier (c := '?') (by decide) (by decide) (by decide)
  have hrest : ¬marks <:+: name ++ '=' :: value :=
      fun hin => h (hin.trans (List.suffix_cons ..).isInfix)
  have hquiet := sub_userinfo_quiet hrest fun c hc => (delimiter_of_value (hq c hc)).2
  rw [List.append_assoc, List.cons_append] at hquiet
  rw [append_query, hbarrier.sub_append userinfo_bounded, hquiet, append_query, List.append_assoc,
    List.cons_append]

theorem mask_value : ∀ c ∈ mask, valueChar c = true ∧ ¬isSep c ∧ c ∉ closers := by
  intro c hc
  obtain rfl : c = '*' := List.eq_of_mem_replicate (show c ∈ List.replicate 3 '*' from hc)
  unfold isSep
  decide

theorem mask_suffix_written {sep : Char} {raw : List Char} (h : mask <:+ raw) :
    mask <:+ written u nested sep name raw := by
  obtain ⟨x, rfl⟩ := h
  have hlast : ∀ c ∈ mask.getLast?, decide (c ∈ closers) = false :=
    Py.forall_of_all_option (by decide)
  have htrail : (splitValueTrailing (x ++ mask)).2 = [] := by
    have hend : ∀ c ∈ (x ++ mask).getLast?, decide (c ∈ closers) = false := by
      rw [List.getLast?_append_of_ne_nil x (by decide)]
      exact hlast
    have htake := (Py.rdropWhile_append (by simp [mask]) hend []).2
    rw [List.append_nil] at htake
    exact htake
  unfold written
  dsimp only
  rw [htrail]
  split
  · exact ⟨sep :: name ++ ['='], by simp⟩
  · exact ⟨sep :: name ++ '=' :: x, by simp⟩

theorem sub_param_eq_self {text : List Char} (h : ∀ d ∈ text, ¬isSep d) :
    Py.sub (param u nested) text = text := by
  induction text with
  | nil => rfl
  | cons d text ih =>
    obtain ⟨hd, htext⟩ := List.forall_mem_cons.mp h
    have hmatch : param u nested [] (d :: text) = none := by
      unfold param
      rw [queryParam_none_of_sep hd]
      rfl
    rw [param_forward.sub_none hmatch, ih htext]

theorem mask_suffix_param {text : List Char} (h : mask <:+ text) :
    mask <:+ Py.sub (param u nested) text := by
  induction hlen : text.length using Nat.strong_induction_on generalizing text with
  | _ len ih =>
    cases text with
    | nil => exact absurd (List.suffix_nil.mp h) (by decide)
    | cons c text =>
      cases hfound : queryParam (c :: text) with
      | none =>
        have hmatch : param u nested [] (c :: text) = none := by
          unfold param
          rw [hfound]
          rfl
        rcases List.suffix_cons_iff.mp h with heq | htail
        · rw [← heq, sub_param_eq_self fun d hd => (mask_value d hd).2.1]
        · rw [param_forward.sub_none hmatch]
          exact (ih text.length (by rw [← hlen]; simp) htail rfl).trans (List.suffix_cons ..)
      | some x =>
        obtain ⟨sep, key, raw⟩ := x
        obtain ⟨hsep, hne, hkey, hraw, rest, htext, hrest⟩ := queryParam_some hfound
        have hlen' := congrArg List.length htext
        rw [htext] at h ⊢
        rw [sub_param_match hsep hne hkey hraw hrest]
        cases rest with
        | nil =>
          have hend := Py.suffix_append_cons (by decide) h
          rw [List.append_nil] at hend
          exact (mask_suffix_written hend).trans ⟨[], (List.append_nil _).symm⟩
        | cons d rest =>
          have hd : d ∉ mask := fun hd => by
            have := hrest d rfl
            rw [(mask_value d hd).1] at this
            cases this
          have hshape : sep :: key ++ '=' :: (raw ++ d :: rest) = sep :: key ++ '=' ::
              raw ++ d :: rest := by
            simp
          rw [hshape] at h
          have hend : mask <:+ d :: rest := (Py.suffix_append_cons hd h).trans (List.suffix_cons ..)
          have hshort : (d :: rest).length < len := by
            simp only [List.length_cons, List.length_append] at hlen hlen' ⊢
            omega
          exact (ih _ hshort hend rfl).trans (List.suffix_append ..)

/-- What a pass over a text with the parameter needs to know of it: it has no `://` of its own; no
URL of the text ends in it, and in the value of another parameter of that URL it is redacted; and
without such a URL it is masked. -/
structure Hidden (u : Unicode) (nested veil : List Char → List Char) (p name value : List Char) :
    Prop where
  credential : Credential u name value
  quiet : ¬marks <:+: query name value
  in_url : ∀ scheme body, UrlRuns (Py.sub userinfo p) scheme body →
    (∀ c ∈ name ++ value, c ∉ breakers) ∧
    ('?' ∈ body → Veiled nested veil (Percent.unquotePlus name) (Percent.unquotePlus value))
  in_value : (∀ scheme body, ¬UrlRuns (Py.sub userinfo p) scheme body) →
    Masked u nested (Py.sub (url u nested) (Py.sub userinfo p)) name value

theorem urlChar_of_value (hvalue : valueChar c = true) (hc : c ∉ breakers) : urlChar c = true := by
  simp only [valueChar, urlChar, Bool.not_eq_true', Bool.or_eq_false_iff, decide_eq_false_iff_not,
    List.mem_cons, List.not_mem_nil, or_false, not_or] at hvalue ⊢
  tauto

/-- Punctuation is split off what follows the credential, not off the credential. -/
theorem Credential.splitTrailing (h : Credential u name value) (body run : List Char) :
    splitTrailing (body ++ query name value ++ run) =
      (body ++ query name value ++ (splitTrailing run).1, (splitTrailing run).2) := by
  have hlast (c : Char) (hc : c ∈ (body ++ query name value).getLast?) : decide
      (c ∈ punctuation) = false :=
    decide_eq_false fun hmem => h.query_end body c hc (punctuation_closers c hmem)
  obtain ⟨hdrop, htake⟩ := Py.rdropWhile_append (by simp [query]) hlast run
  exact Prod.ext hdrop htake

theorem Credential.urlChar (h : Credential u name value)
    (hunbroken : ∀ c ∈ name ++ value, c ∉ breakers) :
    ∀ c ∈ name ++ '=' :: value, urlChar c = true := by
  intro c hc
  have hquery := h.value_of_query (List.forall_mem_nil _) c (List.mem_cons_of_mem '?' hc)
  refine urlChar_of_value hquery fun hbreak => ?_
  simp only [List.mem_append, List.mem_cons] at hc
  rcases hc with hc | rfl | hc
  · exact hunbroken c (List.mem_append_left _ hc) hbreak
  · exact absurd hbreak (by decide)
  · exact hunbroken c (List.mem_append_right _ hc) hbreak

/-- A URL that had a fragment has lost it. -/
theorem count_redactUrl_lt {scheme body : List Char} (hscheme : ∀ c ∈ scheme, schemeChar c = true)
    (hhash : '#' ∈ scheme ++ body) (rest : List Char) :
    (redactUrl u nested scheme rest).count '#' < (scheme ++ marks ++ body).count '#' := by
  have hno : '#' ∉ redactUrl u nested scheme rest := fun hmem =>
    (redactUrl_mem hscheme (by decide) hmem).1 rfl
  rw [List.count_eq_zero.mpr hno]
  refine List.count_pos_iff.mpr ?_
  rcases List.mem_append.mp hhash with hmem | hmem <;> simp [hmem]

theorem sub_url_apart {text : List Char} (hno : ∀ scheme body, ¬UrlRuns text scheme body)
    (hquiet : ¬marks <:+: query name value) {q : List Char} (hq : EndsValue q) :
    Py.sub (url u nested) (text ++ query name value ++ q) =
      Py.sub (url u nested) text ++ query name value ++ Py.sub (url u nested) q := by
  have hkept : Py.sub (url u nested) (query name value ++ q) = query name value ++
      Py.sub (url u nested) q :=
    sub_url_quiet hquiet fun c hc => delimiter_of_value (hq c hc)
  have happend : '?' :: (name ++ '=' :: (value ++ q)) = query name value ++ q :=
    (append_query [] name value q).symm
  rcases @sub_url_query u nested text with ⟨-, hsplit⟩ | ⟨a₁, scheme, body, z, -, hruns, -⟩
  · rw [append_query, hsplit, happend, hkept, List.append_assoc]
  · exact absurd hruns (hno scheme body)

/-- Where a URL of the text goes on over the parameter, it is written again as a part of it. -/
theorem url_hidden (veil : List Char → List Char) (name : List Char) {q : List Char}
    (hq : EndsValue q) (text : List Char) :
    (∀ scheme body, ¬UrlRuns text scheme body) ∨ ∃ scheme body r, UrlRuns text scheme body ∧
      ∀ value, Credential u name value → (∀ c ∈ name ++ value, c ∉ breakers) →
        ('?' ∈ body → Veiled nested veil (Percent.unquotePlus name) (Percent.unquotePlus value)) →
        Py.sub (url u nested) (text ++ query name value ++ q) = r ∧
        (q = [] → (∀ w, mask <:+ veil w) → mask <:+ r ∨ r.count '#' < text.count '#') := by
  rcases @sub_url_query u nested text with ⟨hno, -⟩ | ⟨a₁, scheme, body, z, ha, hruns, hz, -, hsub⟩
  · exact .inl hno
  · let run := q.takeWhile urlChar
    obtain ⟨r, hmask, hr⟩ := @redactUrl_hidden u nested veil name scheme body (splitTrailing run).1
      (hq.run_prefix (List.rdropWhile_prefix _ _))
    refine .inr ⟨scheme, body,
      z ++ (r ++ (splitTrailing run).2 ++ Py.sub (url u nested) (q.dropWhile urlChar)), hruns,
      fun value h hunbroken hveiled => ?_⟩
    have hurl := hr value h hveiled
    have hfound : body ++ '?' :: (name ++ '=' :: value ++ q).takeWhile urlChar =
        body ++ query name value ++ run := by
      rw [List.takeWhile_append_of_pos (h.urlChar hunbroken)]
      simp [query, run]
    have hafter : (name ++ '=' :: value ++ q).dropWhile urlChar = q.dropWhile urlChar :=
      List.dropWhile_append_of_pos (h.urlChar hunbroken)
    rw [List.append_assoc, List.cons_append] at hfound hafter
    refine ⟨?_, fun hend hveil => ?_⟩
    · rw [append_query, hsub, sub_url_open hruns.openness, hfound, hafter, h.splitTrailing, hurl]
    · subst hend
      have hnil : z ++ (r ++ (splitTrailing run).2 ++
          Py.sub (url u nested) (([] : List Char).dropWhile urlChar)) =
          z ++ r := by
        simp [run, splitTrailing, Py.sub, Py.subFrom]
      rw [hnil]
      by_cases hhash : '#' ∈ scheme ++ body
      · right
        have hless : r.count '#' < (scheme ++ marks ++ body).count '#' :=
          hurl ▸ count_redactUrl_lt hruns.openness.scheme_char hhash _
        rw [ha, List.count_append, List.count_append]
        omega
      · exact .inl ((hmask rfl hhash hveil).trans (List.suffix_append ..))

/-- A parameter that no URL goes on over is masked with the value that it ends, or is left as it
is. -/
theorem redactWith_apart (p name : List Char) {q : List Char} (hq : EndsValue q)
    (hno : ∀ scheme body, ¬UrlRuns (Py.sub userinfo p) scheme body) :
    ∃ z w, ∀ value, Credential u name value → ¬marks <:+: query name value →
      (Masked u nested (Py.sub (url u nested) (Py.sub userinfo p)) name value →
        redactWith u nested (p ++ query name value ++ q) = z ++ mask ++ redactWith u nested q) ∧
      (¬Masked u nested (Py.sub (url u nested) (Py.sub userinfo p)) name value →
        redactWith u nested (p ++ query name value ++ q) =
          z ++ (w ++ query name value) ++ redactWith u nested q) := by
  have hrest : EndsValue (Py.sub (url u nested) (Py.sub userinfo q)) := hq.userinfo.url
  obtain ⟨z, w, hz⟩ := @sub_param_credential u nested name _ hrest
      (Py.sub (url u nested) (Py.sub userinfo p))
  refine ⟨z, w, fun value h hquiet => ?_⟩
  have hpasses : redactWith u nested (p ++ query name value ++ q) = Py.sub (param u nested)
      (Py.sub (url u nested) (Py.sub userinfo p) ++ query name value ++
        Py.sub (url u nested) (Py.sub userinfo q)) := by
    unfold redactWith
    rw [sub_userinfo_text hquiet hq, sub_url_apart hno hquiet hq.userinfo]
  rw [hpasses]
  exact hz value h

/-- A text with the credential is redacted to the same for all its values; at the end of the text, a
mask is left or a fragment is gone. -/
theorem redactWith_hidden (veil : List Char → List Char) (p name : List Char) {q : List Char}
    (hq : EndsValue q) :
    ∃ r, ∀ value, Hidden u nested veil p name value →
      redactWith u nested (p ++ query name value ++ q) = r ∧
      (q = [] → (∀ w, mask <:+ veil w) → mask <:+ r ∨ r.count '#' < p.count '#') := by
  have hcount : (Py.sub userinfo p).count '#' ≤ p.count '#' :=
    Py.count_sub_le userinfo_bounded count_userinfo p
  rcases @url_hidden u nested veil name _ hq.userinfo (Py.sub userinfo p) with
    hno | ⟨scheme, body, r, hruns, hr⟩
  · obtain ⟨z, w, hz⟩ := @redactWith_apart u nested p name q hq hno
    refine ⟨z ++ mask ++ redactWith u nested q,
      fun value h => ⟨(hz value h.credential h.quiet).1 (h.in_value hno), fun hend _ => .inl ?_⟩⟩
    subst hend
    exact ⟨z, (List.append_nil _).symm⟩
  · refine ⟨Py.sub (param u nested) r, fun value h => ?_⟩
    obtain ⟨hunbroken, hveiled⟩ := h.in_url scheme body hruns
    obtain ⟨hsame, hleft⟩ := hr value h.credential hunbroken hveiled
    refine ⟨?_, fun hend hveil => ?_⟩
    · unfold redactWith
      rw [sub_userinfo_text h.quiet hq, hsame]
    · subst hend
      refine (hleft rfl hveil).imp mask_suffix_param fun hless => ?_
      have hparam : (Py.sub (param u nested) r).count '#' ≤ r.count '#' :=
        Py.count_sub_le param_bounded count_param r
      omega

end Text

section Cut

theorem isSensitive_nil : isSensitive u [] = false := by
  unfold isSensitive
  rw [u.lower_nil]
  decide

theorem nameChar_of_quoted (h : Percent.Quoted ['*'] c) : nameChar c = true := by
  have hspace : Py.isSpace c = false := by
    rw [Bool.eq_false_iff]
    intro hspace
    rcases h with h | h | h
    · have hrange : 48 ≤ c.toNat ∧ c.toNat ≤ 122 := by
        delta Char.isAlphanum Char.isAlpha Char.isUpper Char.isLower Char.isDigit at h
        simp only [Bool.or_eq_true, Bool.and_eq_true, decide_eq_true_eq,
          UInt32.le_iff_toNat_le, ge_iff_le] at h
        rcases h with (h | h) | h
        · exact ⟨le_trans (by decide) h.1, le_trans h.2 (by decide)⟩
        · exact ⟨le_trans (by decide) h.1, h.2⟩
        · exact ⟨h.1, le_trans h.2 (by decide)⟩
      simp only [Py.isSpace, Bool.or_eq_true, Bool.and_eq_true, decide_eq_true_eq,
        beq_iff_eq] at hspace
      omega
    · exact absurd hspace
        ((Py.forall_of_all (by decide) : ∀ d ∈ ['_', '.', '-', '~', '+', '%'],
          ¬Py.isSpace d = true) c h)
    · exact absurd hspace ((Py.forall_of_all (by decide) : ∀ d ∈ ['*'], ¬Py.isSpace d = true) c h)
  have hplain : c ∉ ['=', '&', '#', '\'', '"', '<', '>'] := by
    intro hmem
    revert h
    unfold Percent.Quoted
    exact (Py.forall_of_all (by decide) : ∀ d ∈ ['=', '&', '#', '\'', '"', '<', '>'],
      ¬(d.isAlphanum ∨ d ∈ ['_', '.', '-', '~', '+', '%'] ∨ d ∈ ['*'])) c hmem
  unfold nameChar
  rw [decide_eq_false hplain, hspace]
  rfl

/-- The name as it is written in a URL. -/
def rewritten (name : List Char) : List Char := Percent.quotePlus ['*'] (Percent.unquotePlus name)

/-- A sensitive name is one when it is written again. -/
theorem Sensitive.rewritten (h : Sensitive u name) : Sensitive u (rewritten name) := by
  have hback : Percent.unquotePlus (Redaction.rewritten name) = Percent.unquotePlus name :=
    UriCoding.unquotePlus_quotePlus (by decide) (by decide) _
  have hsensitive : isSensitiveRaw u (Redaction.rewritten name) = true := by
    unfold isSensitiveRaw
    rw [hback]
    exact h.sensitive
  refine ⟨?_, fun c hc => nameChar_of_quoted (Percent.mem_quotePlus hc), hsensitive⟩
  intro hnil
  rw [hnil] at hsensitive
  have hempty : isSensitiveRaw u [] = isSensitive u [] := rfl
  rw [hempty, isSensitive_nil] at hsensitive
  cases hsensitive

theorem urlunsplit_query {scheme netloc path query : List Char} (h : query ≠ []) :
    urlunsplit scheme netloc path query = urlunsplit scheme netloc path [] ++ '?' :: query := by
  have hnil : ¬(([] : List Char) ≠ []) := fun hne => hne rfl
  unfold urlunsplit
  dsimp only
  rw [if_pos h, if_neg hnil, List.append_nil]

theorem redactUrl_param (h : Sensitive u name) {scheme body : List Char} (hquery : '?' ∉ body)
    (hhash : '#' ∉ body) (hread : (redactNetloc u (body.takeWhile (· ∉ ['/', '?', '#']))).isSome)
      (hvalue : ∀ c ∈ value, valueChar c = true) :
    redactUrl u nested scheme (body ++ query name value) =
      redactUrl u nested scheme body ++ query (rewritten name) mask := by
  obtain ⟨host, hhost⟩ := Option.isSome_iff_exists.mp hread
  have hnetloc (t : List Char) :
      (body ++ '?' :: t).takeWhile (· ∉ ['/', '?', '#']) = body.takeWhile (· ∉ ['/', '?', '#']) :=
    Py.takeWhile_append_stop (by decide) _ _
  have hdrop (t : List Char) :
      (body ++ '?' :: t).dropWhile (· ∉ ['/', '?', '#']) =
        body.dropWhile (· ∉ ['/', '?', '#']) ++ '?' :: t :=
    Py.dropWhile_append_stop (by decide) _ _
  have hbody {c : Char} (hc : c ∈ body.dropWhile (· ∉ ['/', '?', '#'])) : c ∈ body :=
    (List.dropWhile_suffix _).subset hc
  generalize hdropped : body.dropWhile (· ∉ ['/', '?', '#']) = path at hdrop hbody
  have hpath {c : Char} (hc : c ∈ path) : decide (c ≠ '#') = true := by
    rw [decide_eq_true_eq]
    rintro rfl
    exact hhash (hbody hc)
  have hpair {d : Char} (hd : valueChar d = false) : d ∉ name ++ '=' :: value := by
    intro hmem
    have hd' : valueChar d = true := by
      rcases List.mem_append.mp hmem with hmem | hmem
      · exact valueChar_of_nameChar (h.name_char d hmem)
      · exact (List.forall_mem_cons.mpr ⟨by decide, hvalue⟩ : ∀ d ∈ '=' :: value,
          valueChar d = true) d hmem
    rw [hd] at hd'
    cases hd'
  have htarget : (path ++ '?' :: (name ++ '=' :: value)).takeWhile (· ≠ '#') =
      path ++ '?' :: (name ++ '=' :: value) := by
    rw [List.takeWhile_eq_self_iff]
    refine List.forall_mem_append.mpr ⟨fun c hc => hpath hc,
      List.forall_mem_cons.mpr ⟨by decide, fun c hc => ?_⟩⟩
    rw [decide_eq_true_eq]
    rintro rfl
    exact hpair (by decide) hc
  have hself : path.takeWhile (· ≠ '#') = path :=
    List.takeWhile_eq_self_iff.mpr fun c hc => hpath hc
  have hno : '?' ∉ path := fun hmem => hquery (hbody hmem)
  have hnone : Py.partition '?' path = (path, []) := by
    have hall : ∀ c ∈ path, decide (c ≠ '?') = true := fun c hc => by
      rw [decide_eq_true_eq]
      rintro rfl
      exact hno hc
    unfold Py.partition
    rw [List.takeWhile_eq_self_iff.mpr hall, List.dropWhile_eq_nil_iff.mpr hall]
    rfl
  have hfields : parseQsl (name ++ '=' :: value) =
      [(Percent.unquotePlus name, Percent.unquotePlus value)] := by
    have hname : '=' ∉ name := fun hmem => absurd (h.name_char _ hmem) (by decide)
    unfold parseQsl field
    rw [List.splitOn_eq_singleton (hpair (by decide)), List.filter_singleton]
    simp only [ne_eq, List.append_eq_nil_iff, List.cons_ne_nil, and_false, not_false_eq_true,
      decide_true, cond_true, List.map_cons, List.map_nil, Py.partition_append hname]
  have hshown : [(Percent.unquotePlus name, Percent.unquotePlus value)].map (shown u nested) =
      [(Percent.unquotePlus name, mask)] := by
    have hsensitive : isSensitive u (Percent.unquotePlus name) = true := h.sensitive
    rw [List.map_singleton, shown]
    dsimp only
    rw [if_pos hsensitive]
  have hcoded : urlencode [(Percent.unquotePlus name, mask)] = rewritten name ++ '=' :: mask := by
    have hmask : Percent.quotePlus ['*'] mask = mask := by decide +kernel
    unfold urlencode rewritten
    rw [List.map_singleton, hmask]
    simp [List.intercalate]
  unfold redactUrl
  dsimp only
  rw [query, hnetloc, hhost, hdrop, htarget, Py.partition_append hno, hdropped, hself, hnone]
  dsimp only
  rw [hfields, hshown, hcoded, urlunsplit_query (by simp)]
  rfl

/-- A URL of a text without parameters goes on over a parameter, can be read, and has no fragment
yet; and what follows the parameter does not go on with it, since a quote or a bracket in the value
or a character after it ends the URL. -/
structure Cuts (u : Unicode) (p name value q : List Char) : Prop where
  plain : ∀ c ∈ p, ¬isSep c
  readable : ∀ scheme body, UrlRuns (Py.sub userinfo p) scheme body →
    '#' ∉ body ∧ (redactNetloc u (body.takeWhile (· ∉ ['/', '?', '#']))).isSome
  name : ∀ c ∈ name, c ∉ breakers
  ends : (∃ c ∈ value, c ∈ breakers) ∨ ∀ c ∈ q.head?, urlChar c = false

theorem Cuts.stops {p q : List Char} (h : Cuts u p name value q) (hq : EndsValue q) :
    ∀ c ∈ (value.dropWhile urlChar ++ Py.sub userinfo q).head?, urlChar c = false := by
  cases hrest : value.dropWhile urlChar with
  | cons d rest =>
    have hstop := List.head?_dropWhile_not urlChar value
    rw [hrest] at hstop
    intro c hc
    cases hc
    exact hstop
  | nil =>
    rcases h.ends with ⟨c, hc, hbreak⟩ | hends
    · have hurl := List.dropWhile_eq_nil_iff.mp hrest c hc
      have hno : urlChar c = false :=
        (Py.forall_of_all (by decide) : ∀ d ∈ breakers, urlChar d = false) c hbreak
      rw [hno] at hurl
      cases hurl
    · cases q with
      | nil => exact hends
      | cons c q =>
        obtain ⟨-, hcolon, hslash⟩ := delimiter_of_value (hq c rfl)
        rw [List.nil_append, sub_userinfo_cons hcolon hslash]
        exact hends

/-- What is left of a value after a mask is the end of a value. -/
theorem Credential.cut (h : Credential u name value) : Credential u (rewritten name)
    (mask ++ ((Redaction.splitTrailing (value.takeWhile Redaction.urlChar)).2 ++
      value.dropWhile Redaction.urlChar)) where
  toSensitive := h.toSensitive.rewritten
  value_ne := by simp [mask]
  value_char := by
    have hpunctuation : ∀ d ∈ punctuation, valueChar d = true := Py.forall_of_all (by decide)
    refine List.forall_mem_append.mpr ⟨fun c hc => (mask_value c hc).1,
      List.forall_mem_append.mpr ⟨fun c hc => hpunctuation c ?_, fun c hc => ?_⟩⟩
    · simpa using List.mem_rtakeWhile_imp hc
    · exact h.value_char c ((List.dropWhile_suffix _).subset hc)
  value_end := by
    intro c hc
    cases hrest : value.dropWhile Redaction.urlChar with
    | cons d rest =>
      rw [hrest, ← List.append_assoc, List.getLast?_append_of_ne_nil _ (by simp), ← hrest] at hc
      have hlast : value.getLast? = (value.dropWhile Redaction.urlChar).getLast? := by
        conv_lhs => rw [← List.takeWhile_append_dropWhile (p := Redaction.urlChar) (l := value)]
        exact List.getLast?_append_of_ne_nil _ (by simp [hrest])
      rw [← hlast] at hc
      exact h.value_end c hc
    | nil =>
      have hself : value.takeWhile Redaction.urlChar = value := by
        rw [List.takeWhile_eq_self_iff]
        exact List.dropWhile_eq_nil_iff.mp hrest
      have hlast (c : Char) (hc : c ∈ value.getLast?) : decide (c ∈ punctuation) = false :=
        decide_eq_false fun hmem => h.value_end c hc (punctuation_closers c hmem)
      have hnone : (Redaction.splitTrailing value).2 = [] := by
        have htake := (Py.rdropWhile_append h.value_ne hlast []).2
        rw [List.append_nil] at htake
        exact htake
      rw [hself, hnone, hrest] at hc
      exact (Py.forall_of_all_option (by decide) : ∀ d ∈ (mask ++ ([] ++ [])).getLast?,
        d ∉ closers) c hc

/-- A text with the credential is redacted to the same for all its values where the URL that is open
ends within the parameter. -/
theorem redactWith_cut (p name : List Char) {q : List Char} (hq : EndsValue q)
    (hruns : ∃ scheme body, UrlRuns (Py.sub userinfo p) scheme body) :
    ∃ r, ∀ value, Credential u name value → ¬marks <:+: query name value → Cuts u p name value q →
      redactWith u nested (p ++ query name value ++ q) = r := by
  obtain ⟨scheme', body', hruns'⟩ := hruns
  rcases @sub_url_query u nested (Py.sub userinfo p) with ⟨hno, -⟩ | ⟨a₁, scheme, body, z, ha,
      hruns, -, hplain, hsub⟩
  · exact absurd hruns' (hno _ _)
  let text := z ++ redactUrl u nested scheme body
  have hrest : EndsValue (Py.sub (url u nested) (Py.sub userinfo q)) := hq.userinfo.url
  obtain ⟨y, w, hy⟩ := @sub_param_credential u nested (rewritten name) _ hrest text
  refine ⟨y ++ mask ++ redactWith u nested q, fun value h hquiet hcuts => ?_⟩
  have hp : ∀ c ∈ Py.sub userinfo p, ¬isSep c := fun c hc => hcuts.plain c (mem_sub_userinfo hc)
  have hbody : ∀ c ∈ body, ¬isSep c := fun c hc => hp c (by rw [ha]; simp [hc])
  obtain ⟨hhash, hread⟩ := hcuts.readable scheme body hruns
  have hwritten : Py.sub (url u nested) (Py.sub userinfo p ++ query name value ++
      Py.sub userinfo q) =
      text ++ query (rewritten name) (mask ++ ((splitTrailing (value.takeWhile urlChar)).2 ++
        value.dropWhile urlChar)) ++ Py.sub (url u nested) (Py.sub userinfo q) := by
    have hchars : ∀ c ∈ name ++ '=' :: value.takeWhile urlChar, urlChar c = true :=
      List.forall_mem_append.mpr
        ⟨fun c hc => urlChar_of_value (valueChar_of_nameChar (h.name_char c hc)) (hcuts.name c hc),
          List.forall_mem_cons.mpr ⟨by decide, fun c hc => List.mem_takeWhile_imp hc⟩⟩
    have hshape : name ++ '=' :: (value ++ Py.sub userinfo q) =
        name ++ '=' :: value.takeWhile urlChar ++
          (value.dropWhile urlChar ++ Py.sub userinfo q) := by
      rw [List.append_assoc name, List.cons_append, ← List.append_assoc (value.takeWhile urlChar),
        List.takeWhile_append_dropWhile]
    have hsplit : splitTrailing (body ++ '?' :: (name ++ '=' :: value.takeWhile urlChar)) =
        (body ++ query name (splitTrailing (value.takeWhile urlChar)).1,
          (splitTrailing (value.takeWhile urlChar)).2) := by
      have hlast : ∀ c ∈ (body ++ '?' :: (name ++ ['='])).getLast?,
          decide (c ∈ punctuation) = false := by
        rw [← List.cons_append, ← List.append_assoc, List.getLast?_append_of_ne_nil _ (by simp)]
        exact Py.forall_of_all_option (by decide)
      obtain ⟨hdrop, htake⟩ := Py.rdropWhile_append (by simp) hlast (value.takeWhile urlChar)
      have happend (v : List Char) : body ++ '?' :: (name ++ ['=']) ++ v =
          body ++ '?' :: (name ++ '=' :: v) := by
        simp
      rw [happend] at hdrop htake
      rw [happend] at hdrop
      exact Prod.ext hdrop htake
    have hkept : Py.sub (url u nested) (value.dropWhile urlChar ++ Py.sub userinfo q) =
        value.dropWhile urlChar ++ Py.sub (url u nested) (Py.sub userinfo q) := by
      refine sub_url_quiet (fun hin => hquiet (hin.trans ?_)) fun c hc => delimiter_of_value
        (hq.userinfo c hc)
      exact ((List.dropWhile_suffix _).trans
        (List.suffix_append ('?' :: name ++ ['=']) value)).isInfix.trans
        ⟨[], [], by simp [query]⟩
    obtain ⟨htake, hdrop⟩ := Py.takeWhile_run hchars (hcuts.stops hq)
    have hvalue : ∀ c ∈ (splitTrailing (value.takeWhile urlChar)).1,
        valueChar c = true := fun c hc =>
      h.value_char c ((List.takeWhile_prefix _).subset (mem_splitTrailing (.inl hc)))
    rw [append_query, hsub, sub_url_open hruns.openness, hshape, htake, hdrop, hsplit, hkept,
      redactUrl_param h.toSensitive (fun hmem => hbody _ hmem (.inl rfl)) hhash hread hvalue]
    simp [text, query]
  have htext : ∀ c ∈ text, ¬isSep c := by
    refine List.forall_mem_append.mpr ⟨hplain fun c hc => hp c (by rw [ha]; simp [hc]),
      fun c hc hsep => ?_⟩
    have hmark : c ∈ partMarks := by
      rcases hsep with rfl | rfl <;> decide
    rcases (redactUrl_mem hruns.openness.scheme_char hmark hc).2 with hmem | hmem
    · exact hbody c hmem hsep
    · exact hbody _ hmem (.inl rfl)
  have hmasked (v : List Char) : Masked u nested text (rewritten name) v := fun sep key w hin =>
    absurd hin.openness.sep (htext sep (hin.suffix.subset (by simp)))
  unfold redactWith
  rw [sub_userinfo_text hquiet hq, hwritten]
  exact (hy _ h.cut).1 (hmasked _)

end Cut

section Levels

/-- Past the last level, a value with a parameter in it is masked. -/
theorem veiled_zero (name value : List Char) :
    Veiled (Redaction.nested u 0) (fun _ => mask) name value := by
  intro w
  have hmem : '=' ∈ w ++ query name value := by simp [query]
  refine ⟨if_pos (List.any_eq_true.mpr ⟨'=', hmem, by decide⟩), fun heq => ?_⟩
  rw [← heq] at hmem
  exact absurd (show '=' ∈ mask from hmem) (by decide)

/-- A value that is searched for credentials, with one at its end. -/
structure Found (u : Unicode) (name value : List Char) : Prop where
  credential : Credential u name value
  quiet : ¬marks <:+: query name value
  unbroken : ∀ c ∈ name ++ value, c ∉ breakers
  unmasked : ¬mask <:+ value

theorem Found.hidden (h : Found u name value) (w : List Char) :
    Hidden u (Redaction.nested u 0) (fun _ => mask) w name value where
  credential := h.credential
  quiet := h.quiet
  in_url _ _ _ := ⟨h.unbroken, fun _ => veiled_zero _ _⟩
  in_value _ _ _ w' _ := by
    obtain ⟨hmask, hne⟩ := @veiled_zero u (Percent.unquotePlus name) (Percent.unquotePlus value)
      (Percent.unquotePlus w')
    right
    rw [unquotePlus_query, hmask]
    exact hne

/-- One level deep, what a value is redacted to says nothing of the credential at its end. -/
theorem exists_veil (name : List Char) :
    ∃ veil, ∀ value, Found u name value → Veiled (Redaction.nested u 1) veil name value := by
  have hnil : EndsValue [] := fun c hc => by cases hc
  choose veil hveil using fun w => @redactWith_hidden u (Redaction.nested u 0)
    (fun _ => mask) w name [] hnil
  refine ⟨veil, fun value h w => ?_⟩
  obtain ⟨hsame, hleft⟩ := hveil w value (h.hidden w)
  rw [List.append_nil] at hsame
  refine ⟨hsame, fun heq => ?_⟩
  rcases hleft rfl fun _ => List.suffix_refl _ with hmask | hhash
  · rw [heq] at hmask
    have hshape : w ++ query name value = w ++ '?' :: name ++ '=' :: value := by simp [query]
    rw [hshape] at hmask
    exact h.unmasked (Py.suffix_append_cons (by decide) hmask)
  · rw [heq, List.count_append] at hhash
    omega

theorem Found.masked (h : Found u (Percent.unquotePlus name) (Percent.unquotePlus value))
    (a : List Char) :
    Masked u (Redaction.nested u maxNesting) a name value := by
  obtain ⟨veil, hveil⟩ := @exists_veil u (Percent.unquotePlus name)
  intro sep key w _
  obtain ⟨hnested, hne⟩ := hveil _ h (Percent.unquotePlus w)
  right
  rw [unquotePlus_query]
  exact fun heq => hne (hnested.symm.trans heq)

end Levels

end Redaction
end InferenceEngine
