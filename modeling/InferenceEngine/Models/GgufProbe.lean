import InferenceEngine.Models.GgufFormat

/-!
# Models.GgufProbe

What `probe` reports of a well-formed header, whatever values stand between those of interest and
whatever follows the header (`probe_metadata`). The metadata are given by their keys and values;
`Value.text` and `Value.int` are the values a header is written with.
-/

namespace InferenceEngine
namespace Gguf

open Reader

structure Metadata where
  version : Nat
  tensorCount : Nat
  entries : Dict String Value

def utf8 (s : String) : List UInt8 := Utf8.encode s.toList

def Metadata.header (m : Metadata) : Header where
  version := m.version
  tensorCount := m.tensorCount
  pairs := m.entries.map fun e => ⟨utf8 e.1, e.2⟩

/-- A string of UTF-8. -/
def Value.text (s : String) : Value := .string (utf8 s)

/-- An integer in the format of `t`. -/
def Value.int (t : ScalarType) (z : Int) : Value :=
  .scalar t (LittleEndian.encode t.size (z % 256 ^ t.size).toNat)

/-- Is `z` one of the integers of the type? -/
def ScalarType.Holds (t : ScalarType) (z : Int) : Prop :=
  match t.kind with
  | .unsigned => 0 ≤ z ∧ z < 256 ^ t.size
  | .signed => -256 ^ t.size ≤ 2 * z ∧ 2 * z < 256 ^ t.size
  | .bool => False
  | .float => False

/-- The value is `z`, in one of the integer types. -/
def Value.IsInt (v : Value) (z : Int) : Prop := ∃ t : ScalarType, t.Holds z ∧ v = .int t z

def Value.IsText (v : Value) (s : String) : Prop := v = .text s

/-- A header that is written as the format asks, and within the guard of `_read_string`. -/
structure Metadata.WellFormed (m : Metadata) : Prop where
  version : m.version < 2 ^ 32
  tensorCount : m.tensorCount < 2 ^ 64
  count : m.entries.length < 2 ^ 64
  distinct : m.entries.keys.Nodup
  keys : ∀ e ∈ m.entries, (utf8 e.1).length ≤ maxString
  sized : ∀ e ∈ m.entries, e.2.Sized
  strings : ∀ e ∈ m.entries, ofInterest e.1 = true → ∀ data, e.2 = .string data →
    data.length ≤ maxString

theorem ofList_decode_utf8 (s : String) : String.ofList (Utf8.decode (utf8 s)) = s := by
  rw [utf8, Utf8.decode_encode, String.ofList_toList]

theorem found_text (s : String) : (Value.text s).found = some (.str s) := by
  rw [Value.text, Value.found, ofList_decode_utf8]

theorem emod_eq_of_neg {z m : Int} (hneg : z < 0) (hle : -m ≤ z) : z % m = z + m := by
  rw [← Int.add_mul_emod_self_left z m 1, Int.mul_one]
  exact Int.emod_eq_of_lt (by omega) (by omega)

theorem toSigned_emod {size : Nat} {z : Int} (hlo : -256 ^ size ≤ 2 * z)
    (hhi : 2 * z < 256 ^ size) :
    toSigned size (z % 256 ^ size).toNat = z := by
  have hcast : ((256 ^ size : Nat) : Int) = 256 ^ size := by push_cast; rfl
  unfold toSigned
  rw [← hcast] at hlo hhi ⊢
  generalize 256 ^ size = m at hlo hhi ⊢
  rcases Int.lt_or_le z 0 with hneg | hpos
  · rw [emod_eq_of_neg hneg (by omega), if_neg (by omega)]
    omega
  · rw [Int.emod_eq_of_lt hpos (by omega), if_pos (by omega)]
    omega

theorem found_int {t : ScalarType} {z : Int} (h : t.Holds z) :
    (Value.int t z).found = some (.int z) := by
  have hpos : (0 : Int) < 256 ^ t.size := Int.pow_pos (by decide)
  have hmod := Int.emod_nonneg z (Int.ne_of_gt hpos)
  have hlt : (z % 256 ^ t.size).toNat < 256 ^ t.size := by
    have hz := Int.emod_lt_of_pos z hpos
    have hcast : ((256 ^ t.size : Nat) : Int) = 256 ^ t.size := by push_cast; rfl
    omega
  simp only [Value.int, Value.found, ScalarType.value, LittleEndian.decode_encode hlt]
  unfold ScalarType.Holds at h
  cases hkind : t.kind with
  | unsigned =>
    rw [hkind] at h
    simp only [Int.emod_eq_of_lt h.1 h.2, Int.toNat_of_nonneg h.1]
  | signed =>
    rw [hkind] at h
    simp only [toSigned_emod h.1 h.2]
  | bool =>
    rw [hkind] at h
    exact h.elim
  | float =>
    rw [hkind] at h
    exact h.elim

/-! ## The pairs that are kept -/

/-- What is kept of an entry. -/
def keep (e : String × Value) : Option (String × MetaValue) :=
  if ofInterest e.1 then e.2.found.map (e.1, ·) else none

theorem name_utf8 (e : String × Value) : (⟨utf8 e.1, e.2⟩ : Pair).name = e.1 :=
  ofList_decode_utf8 e.1

theorem addTo_eq {wanted : Wanted} {e : String × Value} (h : e.1 ∉ wanted.keys) :
    Pair.addTo wanted ⟨utf8 e.1, e.2⟩ = wanted ++ (keep e).toList := by
  unfold Pair.addTo keep
  rw [name_utf8]
  split
  · cases e.2.found with
    | none => simp [keepValue]
    | some v => exact Dict.set_of_not_mem h v
  · simp

theorem keep_key {e : String × Value} {kv : String × MetaValue} (h : keep e = some kv) :
    kv.1 = e.1 := by
  unfold keep at h
  split at h
  · obtain ⟨v, -, rfl⟩ := Option.map_eq_some_iff.mp h
    rfl
  · cases h

theorem keys_filterMap_keep {es : Dict String Value} {k : String}
    (h : k ∈ Dict.keys (es.filterMap keep)) :
    k ∈ es.keys := by
  obtain ⟨v, hv⟩ := Dict.mem_of_mem_keys h
  obtain ⟨e, he, hkeep⟩ := List.mem_filterMap.mp hv
  have hkey := keep_key hkeep
  exact List.mem_map.mpr ⟨e, he, hkey.symm⟩

/-- The loop adds the entries of interest, in order. -/
theorem foldl_addTo {es : Dict String Value} (hdistinct : es.keys.Nodup) (wanted : Wanted)
    (hnew : ∀ k ∈ es.keys, k ∉ wanted.keys) :
    (es.map fun e => (⟨utf8 e.1, e.2⟩ : Pair)).foldl Pair.addTo wanted = wanted ++
      es.filterMap keep := by
  induction es generalizing wanted with
  | nil => simp
  | cons e es ih =>
    obtain ⟨hfresh, hdistinct⟩ := List.nodup_cons.mp hdistinct
    have he : e.1 ∉ wanted.keys := hnew e.1 List.mem_cons_self
    rw [List.map_cons, List.foldl_cons, addTo_eq he, ih hdistinct]
    · cases hkeep : keep e with
      | none => simp [hkeep]
      | some kv => simp [hkeep]
    · intro k hk hmem
      rw [Dict.keys, List.map_append] at hmem
      rcases List.mem_append.mp hmem with hmem | hmem
      · exact hnew k (List.mem_cons_of_mem _ hk) hmem
      · cases hkeep : keep e with
        | none => simp [hkeep] at hmem
        | some kv =>
          have hkey := keep_key hkeep
          simp only [hkeep, Option.toList_some, List.map_cons, List.map_nil,
            List.mem_singleton] at hmem
          rw [hmem, hkey] at hk
          exact hfresh hk

theorem wanted_header {m : Metadata} (h : m.entries.keys.Nodup) :
    m.header.wanted = m.entries.filterMap keep := by
  have hloop := foldl_addTo h [] (by simp [Dict.keys])
  rwa [List.nil_append] at hloop

theorem get_filterMap_keep {es : Dict String Value} (hdistinct : es.keys.Nodup) {k : String}
    (hof : ofInterest k = true) :
    Dict.get (es.filterMap keep) k = (es.get k).bind Value.found := by
  induction es with
  | nil => rfl
  | cons e es ih =>
    obtain ⟨hfresh, hdistinct⟩ := List.nodup_cons.mp hdistinct
    rw [Dict.get_cons]
    by_cases hk : k = e.1
    · subst hk
      rw [if_pos rfl, Option.bind_some]
      cases hfound : e.2.found with
      | none =>
        have hkeep : keep e = none := by simp [keep, hfound]
        rw [List.filterMap_cons_none hkeep]
        exact Dict.get_eq_none fun hmem => hfresh (keys_filterMap_keep hmem)
      | some v =>
        have hkeep : keep e = some (e.1, v) := by simp [keep, hfound, hof]
        rw [List.filterMap_cons_some hkeep, Dict.get_cons, if_pos rfl]
    · rw [if_neg hk, ← ih hdistinct]
      cases hkeep : keep e with
      | none => rw [List.filterMap_cons_none hkeep]
      | some kv =>
        have hkey := keep_key hkeep
        rw [List.filterMap_cons_some hkeep, Dict.get_cons, hkey, if_neg hk]

/-! ## The report -/

/-- The entries whose key ends in `.context_length`, with their integers. -/
def Contexts (es : Dict String Value) (contexts : Dict String Int) : Prop :=
  List.Forall₂ (fun e c => e.1 = c.1 ∧ e.2.IsInt c.2)
    (es.filter fun e => endsWith e.1 ".context_length") contexts

theorem filter_keep {es : Dict String Value} {contexts : Dict String Int}
    (h : Contexts es contexts) :
    (es.filterMap keep).filter (fun e => endsWith e.1 ".context_length") =
      contexts.map fun c => (c.1, .int c.2) := by
  unfold Contexts at h
  induction es generalizing contexts with
  | nil =>
    cases h
    rfl
  | cons e es ih =>
    cases hend : endsWith e.1 ".context_length" with
    | false =>
      rw [List.filter_cons_of_neg (by simp [hend])] at h
      cases hkeep : keep e with
      | none => rw [List.filterMap_cons_none hkeep, ih h]
      | some kv =>
        rw [List.filterMap_cons_some hkeep,
          List.filter_cons_of_neg (by simp [keep_key hkeep, hend]), ih h]
    | true =>
      rw [List.filter_cons_of_pos (by simp [hend])] at h
      cases h with
      | @cons _ c _ cs hc hcs =>
        obtain ⟨hkey, t, hholds, hvalue⟩ := hc
        have hkeep : keep e = some (c.1, .int c.2) := by
          rw [keep, if_pos (by simp [ofInterest, hend]), hvalue, found_int hholds, hkey]
          rfl
        rw [List.filterMap_cons_some hkeep,
          List.filter_cons_of_pos (by simpa [← hkey] using hend), ih hcs]
        rfl

theorem get_filter {d : Wanted} {p : String → Bool} {k : String} (hp : p k = true) :
    Dict.get (d.filter fun e => p e.1) k = d.get k := by
  induction d with
  | nil => rfl
  | cons e d ih =>
    by_cases hk : k = e.1
    · subst hk
      rw [List.filter_cons_of_pos (by exact hp), Dict.get_cons, Dict.get_cons,
        if_pos rfl, if_pos rfl]
    · rw [Dict.get_cons, if_neg hk, ← ih]
      cases hpe : p e.1 with
      | true => rw [List.filter_cons_of_pos (by exact hpe), Dict.get_cons, if_neg hk]
      | false => rw [List.filter_cons_of_neg (by simp [hpe])]

theorem get_map_int (contexts : Dict String Int) (k : String) :
    Dict.get (contexts.map fun c => (c.1, MetaValue.int c.2)) k = (contexts.get k).map .int := by
  induction contexts with
  | nil => rfl
  | cons c cs ih =>
    rw [List.map_cons, Dict.get_cons, Dict.get_cons, ih]
    split <;> rfl

theorem endsWith_append (a suffix : String) : endsWith (a ++ suffix) suffix = true := by
  simp [endsWith]

/-- The context length: that of the architecture, or else the first one. -/
def contextLength (arch : Option String) (contexts : Dict String Int) : Option Int :=
  let first := contexts.head?.map (·.2)
  match arch with
  | some a => if a = "" then first else (contexts.get (a ++ ".context_length")).or first
  | none => first

theorem contextValue_asInt {wanted : Wanted} {contexts : Dict String Int}
    (h : wanted.filter (fun e => endsWith e.1 ".context_length") = contexts.map fun c => (c.1,
      .int c.2)) (arch : Option String) : (contextValue arch wanted).bind MetaValue.asInt =
      contextLength arch contexts := by
  have hfirst : ((wanted.find? fun e => endsWith e.1 ".context_length").map
      (·.2)).bind MetaValue.asInt =
      contexts.head?.map (·.2) := by
    rw [← List.head?_filter, h]
    cases contexts with
    | nil => rfl
    | cons c cs => rfl
  have hnamed (a : String) : wanted.get (a ++ ".context_length") =
      (contexts.get (a ++ ".context_length")).map .int := by
    rw [← get_map_int, ← h]
    exact (get_filter (p := fun k => endsWith k ".context_length") (endsWith_append a _)).symm
  unfold contextValue contextLength
  cases arch with
  | none => exact hfirst
  | some a =>
    by_cases ha : a = ""
    · simp only [ha, ne_eq, not_true, if_false, if_true]
      exact hfirst
    · simp only [ha, ne_eq, not_false_eq_true, if_true, if_false, hnamed]
      cases contexts.get (a ++ ".context_length") with
      | none => exact hfirst
      | some z => rfl

theorem readable_header {m : Metadata} (h : m.WellFormed) : m.header.Readable where
  version := h.version
  tensorCount := h.tensorCount
  count := by
    rw [Metadata.header, List.length_map]
    exact h.count
  pairs := by
    intro p hp
    obtain ⟨e, he, rfl⟩ := List.mem_map.mp hp
    refine ⟨h.keys e he, h.sized e he, fun hof data hdata => ?_⟩
    rw [name_utf8] at hof
    exact h.strings e he hof data hdata

theorem probe_encode (py : PyText) (filename : String) {f : ByteFile} {h : Header} (hr : h.Readable)
    {rest : List UInt8} (hf : f.bytes = h.encode ++ rest) :
    (probe py filename f).1 = .ok (summarize py filename h.wanted) := by
  have hhas : Has f 0 h.encode h.tail := by
    unfold Has
    rw [List.drop_zero, hf]
    exact (List.take_prefix _ _).trans (List.prefix_append _ _)
  have hlen := f.length_le
  rw [hf, List.length_append] at hlen
  obtain ⟨i, hi⟩ := reads_probeBody py filename hr f {} hhas
      (by show 0 + h.encode.length ≤ f.maxOffset; omega)
  simp only [probe, hi]

/-- What `probe` reports of a well-formed header: the architecture and the name, the quantisation of
the file type or else of the file's name, and the context length. -/
theorem probe_metadata (py : PyText) (filename : String) {f : ByteFile} {m : Metadata}
    (h : m.WellFormed) {rest : List UInt8} (hf : f.bytes = m.header.encode ++ rest)
      {arch name : Option String} {fileType : Option Int} {contexts : Dict String Int}
      (harch : Option.Rel Value.IsText (m.entries.get "general.architecture") arch)
      (hname : Option.Rel Value.IsText (m.entries.get "general.name") name)
    (hfileType : Option.Rel Value.IsInt (m.entries.get "general.file_type") fileType)
    (hcontexts : Contexts m.entries contexts) :
    (probe py filename f).1 = .ok
      { valid := true
        arch := arch
        name := name
        quant := (fileType.bind ftypeQuant.get).or (quantFromFilename py filename)
        contextLength := contextLength arch contexts } := by
  have htext {k : String} {t : Option String} (hof : ofInterest k = true)
      (ht : Option.Rel Value.IsText (m.entries.get k) t) :
      (Dict.get (m.entries.filterMap keep) k).map (·.toStr py) = t := by
    rw [get_filterMap_keep h.distinct hof]
    generalize m.entries.get k = value at ht
    cases ht with
    | some hv =>
      rw [hv, Option.bind_some, found_text]
      rfl
    | none => rfl
  have hint : (Dict.get (m.entries.filterMap keep) "general.file_type").bind MetaValue.asInt =
      fileType := by
    rw [get_filterMap_keep h.distinct (by decide)]
    generalize m.entries.get "general.file_type" = value at hfileType
    cases hfileType with
    | some hv =>
      obtain ⟨t, hholds, rfl⟩ := hv
      rw [Option.bind_some, found_int hholds]
      rfl
    | none => rfl
  rw [probe_encode py filename (readable_header h) hf, wanted_header h.distinct]
  have harch' := htext (by decide) harch
  have hname' := htext (by decide) hname
  simp only [summarize, harch', hname', hint, contextValue_asInt (filter_keep hcontexts)]
  cases fileType.bind ftypeQuant.get with
  | none => rfl
  | some q => rfl

/-- ASCII digits, and no floats. -/
def asciiText : PyText := ⟨fun _ => "", Char.isDigit⟩

/-- A small model, with an array between the values of interest. -/
def smallModel : Metadata where
  version := 3
  tensorCount := 0
  entries :=
    [("general.architecture", .text "llama"), ("tokenizer.ggml.tokens", .strings [[97], [98, 99]]),
      ("llama.context_length", .int .uint32 4096), ("general.file_type", .int .uint32 15)]

theorem probe_metadata_smallModel :
    ∃ f : ByteFile, f.bytes = smallModel.header.encode ++ [1, 2, 3] ∧
      (probe asciiText "model.gguf" f).1 = .ok
        { valid := true, arch := some "llama", quant := some "Q4_K_M", contextLength := some 4096 } := by
  have hwf : smallModel.WellFormed := by
    refine ⟨by decide, by decide, by decide, by decide, by decide +kernel, ?_, ?_⟩
    · simp [smallModel, Value.text, Value.int, Value.Sized, utf8, Utf8.encode]
      decide
    · simp [smallModel, Value.text, Value.int]
      decide
  refine ⟨⟨_, 2 ^ 62, by decide +kernel, by decide⟩, rfl, ?_⟩
  have harch : Option.Rel Value.IsText (smallModel.entries.get "general.architecture")
      (some "llama") :=
    .some rfl
  have hname : Option.Rel Value.IsText (smallModel.entries.get "general.name") none := .none
  have hfileType : Option.Rel Value.IsInt (smallModel.entries.get "general.file_type") (some 15) :=
    .some ⟨.uint32, by simp [ScalarType.Holds, ScalarType.kind, ScalarType.size], rfl⟩
  have hcontexts : Contexts smallModel.entries [("llama.context_length", 4096)] := by
    have hfilter : smallModel.entries.filter (fun e => endsWith e.1 ".context_length") =
        [("llama.context_length", .int .uint32 4096)] := by
      decide +kernel
    unfold Contexts
    rw [hfilter]
    refine .cons ⟨rfl, .uint32, ?_, rfl⟩ .nil
    simp [ScalarType.Holds, ScalarType.kind, ScalarType.size]
  rw [probe_metadata asciiText "model.gguf" hwf rfl harch hname hfileType hcontexts]
  decide

/-- A model with an empty architecture. -/
def unnamedModel : Metadata where
  version := 3
  tensorCount := 0
  entries :=
    [("general.architecture", .text ""), ("llama.context_length", .int .uint32 1),
      (".context_length", .int .uint32 2)]

/-- The key of the empty architecture is there, and the first one is taken. -/
theorem probe_unnamedModel :
    unnamedModel.WellFormed ∧ unnamedModel.entries.get "general.architecture" = some (.text "") ∧
      unnamedModel.entries.get ("" ++ ".context_length") = some (.int .uint32 2) ∧
      ∃ f : ByteFile, f.bytes = unnamedModel.header.encode ∧
        (probe asciiText "model.gguf" f).1 =
        .ok { valid := true, arch := some "", contextLength := some 1 } := by
  have hwf : unnamedModel.WellFormed := by
    refine ⟨by decide, by decide, by decide, by decide, by decide +kernel, ?_, ?_⟩
    · simp [unnamedModel, Value.text, Value.int, Value.Sized, utf8, Utf8.encode]
    · simp [unnamedModel, Value.text, Value.int]
      decide
  refine ⟨hwf, rfl, rfl, ⟨_, 2 ^ 62, by decide +kernel, by decide⟩, rfl, ?_⟩
  rw [probe_encode asciiText "model.gguf" (readable_header hwf) (List.append_nil _).symm,
    wanted_header hwf.distinct]
  decide +kernel

end Gguf
end InferenceEngine
