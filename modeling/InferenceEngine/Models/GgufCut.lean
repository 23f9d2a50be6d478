import InferenceEngine.Models.GgufFormat

/-!
# Models.GgufCut

Files that are no GGUF, or not a whole one. `probe` reports nothing but an invalid file when
something it reads is missing, and ends after a pass for every eight bytes of the file at most,
whatever counts stand in it (`probe_bounded`).

A value that is passed over may be missing: `seek` does not mind the end of the file. What comes
next is read, and fails; only the last value has nothing after it. `valid_whole_iff` says which
files are taken for whole ones for that reason.
-/

namespace InferenceEngine
namespace Gguf

open Reader

variable {f : ByteFile}

/-! ## What was read -/

theorem read_ok {n : Nat} {c c' : Cursor} {data : List UInt8} (h : read n f c = (.ok data, c')) :
    data = (f.bytes.drop c.pos).take n ∧ data.length = n ∧ c' = { c with pos := c.pos + n } := by
  simp only [read_eq, Reader.bind, Reader.read] at h
  split at h
  · cases h
  · next hlen =>
    have hlen := not_not.mp hlen
    cases h
    exact ⟨rfl, hlen, by rw [hlen]⟩

theorem sound_read (n : Nat) :
    Sound (read n) fun data enc tail => (enc = data ∧ data.length = n) ∧ tail = 0 := by
  intro f c data c' hpos h
  obtain ⟨hdata, hlen, rfl⟩ := read_ok h
  have hfits : n ≤ f.bytes.length - c.pos := by
    rw [hdata, List.length_take, List.length_drop] at hlen
    omega
  have hend : c.pos + n ≤ f.bytes.length := by omega
  refine ⟨data, 0, ⟨⟨rfl, hlen⟩, rfl⟩, ?_, ?_, hend, hend.trans f.length_le⟩
  · unfold Agrees
    rw [List.take_of_length_le (by omega), hdata]
    exact List.take_prefix _ _
  · rw [hlen]

theorem needs_read {n : Nat} (hn : 0 < n) : NeedsInput (read n) := by
  intro f c hc
  have hnil : (f.bytes.drop c.pos).take n = [] := by
    rw [List.drop_of_length_le (by omega), List.take_nil]
  have hne : 0 ≠ n := by omega
  refine ⟨.eofError "unexpected end of GGUF header", { c with pos := c.pos + 0 }, ?_⟩
  simp only [read_eq, Reader.bind, Reader.read, hnil, List.length_nil]
  rw [if_pos hne]
  rfl

theorem sound_readNat (size : Nat) :
    Sound (readNat size) fun n enc tail => (n < 256 ^ size ∧
      enc = LittleEndian.encode size n) ∧ tail = 0 := by
  have hunpack (data : List UInt8) : Sound (unpackNat size data) fun n enc tail =>
      (data.length = size ∧ n = LittleEndian.decode data) ∧ enc = [] ∧ tail = 0 := by
    unfold unpackNat
    split
    · exact Sound.raise _
    · next hlen =>
      refine (Sound.ret _).mono ?_
      rintro n enc tail ⟨rfl, rfl, rfl⟩
      exact ⟨⟨not_not.mp hlen, rfl⟩, rfl, rfl⟩
  refine ((sound_read size).bind hunpack).mono ?_
  rintro n enc tail ⟨data, e₁, e₂, ⟨rfl, -⟩, ⟨⟨hlen, rfl⟩, rfl, rfl⟩, rfl⟩
  have hlt := LittleEndian.decode_lt e₁
  have hback := LittleEndian.encode_decode e₁
  rw [hlen] at hlt hback
  exact ⟨⟨hlt, by rw [List.append_nil, hback]⟩, rfl⟩

/-- The string that was read. -/
def ReadString (s : String) (enc : List UInt8) : Prop :=
  ∃ data, data.length ≤ maxString ∧ s = String.ofList (Utf8.decode data) ∧ enc = encodeString data

theorem sound_readString : Sound readString fun s enc tail => ReadString s enc ∧ tail = 0 := by
  have hread (length : Nat) : Sound
      (if maxString < length then
          (Reader.raise (.valueError "implausible GGUF string length") : GgufReader String)
        else (read length).bind fun data => Reader.ret (String.ofList (Utf8.decode data)))
      fun s enc tail => (length ≤ maxString ∧ enc.length = length ∧
        s = String.ofList (Utf8.decode enc)) ∧ tail = 0 := by
    split
    · exact Sound.raise _
    · next hle =>
      refine ((sound_read length).bind fun data => Sound.ret _).mono ?_
      rintro s enc tail ⟨data, e₁, e₂, ⟨rfl, hlen⟩, ⟨rfl, rfl, rfl⟩, rfl⟩
      rw [List.append_nil]
      exact ⟨⟨Nat.le_of_not_lt hle, hlen, rfl⟩, rfl⟩
  refine ((sound_readNat 8).bind hread).mono ?_
  rintro s enc tail ⟨n, e₁, e₂, ⟨-, rfl⟩, ⟨⟨hle, rfl, rfl⟩, rfl⟩, rfl⟩
  exact ⟨⟨e₂, hle, rfl, rfl⟩, rfl⟩

/-- Any bytes may stand where the file has none. -/
theorem sound_seek (n : Nat) : Sound (seek n) fun _ enc tail => enc.length = n ∧ tail = n := by
  intro f c _ c' hpos h
  unfold seek Reader.seek at h
  split at h
  · next hle =>
    cases h
    refine ⟨(f.bytes.drop c.pos ++ List.replicate n 0).take n, n, ⟨?_, rfl⟩, ?_, ?_, ?_, hle⟩
    · simp
    · unfold Agrees
      rw [List.take_take, List.take_append_of_le_length (by rw [List.length_drop]; omega)]
      exact List.take_prefix _ _
    · simp
    · show c.pos + n ≤ f.bytes.length + n
      omega
  · cases h

theorem sound_skipString : Sound skipString fun _ enc tail =>
    ∃ data : List UInt8, data.length < 2 ^ 64 ∧ enc = encodeString data ∧ tail = data.length := by
  refine ((sound_readNat 8).bind sound_seek).mono ?_
  rintro _ enc tail ⟨n, e₁, e₂, ⟨hn, rfl⟩, ⟨rfl, rfl⟩, rfl⟩
  exact ⟨e₂, hn, rfl, rfl⟩

theorem needs_readNat {size : Nat} (h : 0 < size) : NeedsInput (readNat size) :=
  (needs_read h).bind

theorem code_of_scalar {n : Nat} {t : ScalarType} (h : scalar n = some t) : n = t.code := by
  unfold scalar at h
  split at h <;> cases h <;> rfl

theorem sound_skipArray : Sound skipArray fun _ enc tail =>
    ∃ v : Value, v.code = arrayType ∧ v.found = none ∧ v.Sized ∧ enc = v.payload ∧
      tail = v.skipTail := by
  have hitems (elemType count : Nat) : Sound (skipElements elemType count) fun _ enc tail =>
        (∃ t : ScalarType, elemType = t.code ∧ enc.length = t.size * count ∧ tail = enc.length) ∨
        (∃ items : List (List UInt8), elemType = stringType ∧ items.length = count ∧
          (∀ data ∈ items, data.length < 2 ^ 64) ∧ enc = items.flatMap encodeString ∧
          tail = lastTail List.length items) := by
    unfold skipElements
    cases hscalar : scalar elemType with
    | some t =>
      refine (sound_seek _).mono ?_
      rintro _ enc tail ⟨hlen, rfl⟩
      exact .inl ⟨t, code_of_scalar hscalar, hlen, hlen.symm⟩
    | none =>
      dsimp only
      split
      · next hstring =>
        have hpass (_ : Unit) : Sound skipString fun s e t =>
            ∃ data : List UInt8, data.length < 2 ^ 64 ∧ s = () ∧ e = encodeString data ∧
              t = data.length := by
          refine sound_skipString.mono ?_
          rintro _ e t ⟨data, hlen, rfl, rfl⟩
          exact ⟨data, hlen, rfl, rfl, rfl⟩
        refine (Sound.forRange (fun _ => (needs_readNat (by decide)).bind) hpass count ()).mono ?_
        rintro _ enc tail ⟨items, hcount, hdata, -, rfl, rfl⟩
        exact .inr ⟨items, hstring, hcount, hdata, rfl, rfl⟩
      · exact Sound.raise _
  refine ((sound_readNat 4).bind fun elemType =>
    (sound_readNat 8).bind fun count => hitems elemType count).mono ?_
  rintro _ enc tail ⟨elemType, e₁, _, ⟨-, rfl⟩, ⟨count, e₂, e₃, ⟨hcount, rfl⟩, hitems, rfl⟩, rfl⟩
  rcases hitems with ⟨t, rfl, hlen, rfl⟩ | ⟨items, rfl, rfl, hdata, rfl, rfl⟩
  · exact ⟨.scalars t count e₃, rfl, rfl, ⟨hcount, hlen⟩, rfl, rfl⟩
  · exact ⟨.strings items, rfl, rfl, ⟨hcount, hdata⟩, rfl, rfl⟩

theorem sound_skipValue (vtype : Nat) : Sound (skipValue vtype) fun _ enc tail =>
    ∃ v : Value, v.code = vtype ∧ v.Sized ∧ enc = v.payload ∧ tail = v.skipTail := by
  unfold skipValue
  cases hscalar : scalar vtype with
  | some t =>
    refine (sound_seek _).mono ?_
    rintro _ enc tail ⟨hlen, rfl⟩
    exact ⟨.scalar t enc, (code_of_scalar hscalar).symm, hlen, rfl, hlen.symm⟩
  | none =>
    dsimp only
    split
    · next hstring =>
      refine sound_skipString.mono ?_
      rintro _ enc tail ⟨data, hlen, rfl, rfl⟩
      exact ⟨.string data, hstring.symm, hlen, rfl, rfl⟩
    · split
      · next harray =>
        refine sound_skipArray.mono ?_
        rintro _ enc tail ⟨v, hcode, -, hrest⟩
        exact ⟨v, hcode.trans harray.symm, hrest⟩
      · exact Sound.raise _

theorem sound_readScalar {vtype : Nat} {t : ScalarType} (h : scalar vtype = some t) :
    Sound (readScalar vtype) fun value enc tail => (enc.length = t.size ∧
      value = t.value enc) ∧ tail = 0 := by
  have hunpack (data : List UInt8) : Sound (unpackScalar t data) fun value enc tail =>
      (data.length = t.size ∧ value = t.value data) ∧ enc = [] ∧ tail = 0 := by
    unfold unpackScalar
    split
    · exact Sound.raise _
    · next hlen =>
      refine (Sound.ret _).mono ?_
      rintro n enc tail ⟨rfl, rfl, rfl⟩
      exact ⟨⟨not_not.mp hlen, rfl⟩, rfl, rfl⟩
  unfold readScalar
  rw [h]
  refine ((sound_read t.size).bind hunpack).mono ?_
  rintro value enc tail ⟨data, e₁, e₂, ⟨rfl, -⟩, ⟨⟨hlen, rfl⟩, rfl, rfl⟩, rfl⟩
  rw [List.append_nil]
  exact ⟨⟨hlen, rfl⟩, rfl⟩

/-- A value that is read. -/
def ReadValue (vtype : Nat) (value : Option MetaValue) (enc : List UInt8) (tail : Nat) : Prop :=
  ∃ v : Value, v.code = vtype ∧ v.Sized ∧ (∀ data, v = .string data → data.length ≤ maxString) ∧
    value = v.found ∧ enc = v.payload ∧ tail = if v.found.isSome then 0 else v.skipTail

/-- A value of interest is read to its end, unless it is an array. -/
theorem sound_readScalarValue (vtype : Nat) : Sound (readScalarValue vtype) (ReadValue vtype) := by
  unfold readScalarValue
  cases hscalar : scalar vtype with
  | some t =>
    rw [Option.isSome_some, if_pos rfl]
    refine ((sound_readScalar hscalar).andThen fun _ => rfl).mono ?_
    rintro _ enc tail ⟨_, ⟨⟨hlen, rfl⟩, rfl⟩, rfl⟩
    refine ⟨.scalar t enc, (code_of_scalar hscalar).symm, hlen, ?_, rfl, rfl, rfl⟩
    intro data hdata
    cases hdata
  | none =>
    rw [Option.isSome_none, if_neg Bool.false_ne_true]
    split
    · next hstring =>
      refine (sound_readString.andThen fun _ => rfl).mono ?_
      rintro _ enc tail ⟨_, ⟨⟨data, hlen, rfl, rfl⟩, rfl⟩, rfl⟩
      refine ⟨.string data, hstring.symm, lt_of_le_of_lt hlen (by decide), ?_, rfl, rfl, rfl⟩
      intro data' hdata
      cases hdata
      exact hlen
    · next hstring =>
      refine ((sound_skipValue vtype).andThen fun _ => rfl).mono ?_
      rintro _ enc tail ⟨_, ⟨v, hcode, hsized, rfl, rfl⟩, rfl⟩
      -- neither a scalar nor a string: an array, of which nothing is kept
      have hnone : v.found = none ∧ ∀ data, v ≠ .string data := by
        cases v with
        | scalar t data =>
          rw [← hcode, Value.code, scalar_code] at hscalar
          cases hscalar
        | string data => exact absurd hcode.symm hstring
        | scalars t count data => exact ⟨rfl, fun _ h => by cases h⟩
        | strings items => exact ⟨rfl, fun _ h => by cases h⟩
      refine ⟨v, hcode, hsized, fun data h => absurd h (hnone.2 data), hnone.1.symm, rfl, ?_⟩
      rw [hnone.1]
      rfl

theorem sound_readPair (wanted : Wanted) : Sound (readPair wanted) fun wanted' enc tail =>
    ∃ p : Pair, p.Readable ∧ wanted' = p.addTo wanted ∧ enc = p.encode ∧ tail = p.tail := by
  have hvalue (key : String) (vtype : Nat) : Sound
      (readValue wanted key vtype) fun wanted' enc tail => ∃ v : Value, v.code = vtype ∧ v.Sized ∧
      enc = v.payload ∧
        (ofInterest key = true → ∀ data, v = .string data → data.length ≤ maxString) ∧
        (wanted' = if ofInterest key then keepValue wanted key v.found else wanted) ∧
        tail = if ofInterest key && v.found.isSome then 0 else v.skipTail := by
    unfold readValue
    cases hof : ofInterest key with
    | true =>
      rw [if_pos rfl]
      refine ((sound_readScalarValue vtype).andThen fun _ => rfl).mono ?_
      rintro _ enc tail ⟨_, ⟨v, hcode, hsized, hstring, rfl, rfl, rfl⟩, rfl⟩
      exact ⟨v, hcode, hsized, rfl, fun _ => hstring, rfl, by rw [Bool.true_and]⟩
    | false =>
      rw [if_neg Bool.false_ne_true]
      refine ((sound_skipValue vtype).andThen fun _ => rfl).mono ?_
      rintro _ enc tail ⟨_, ⟨v, hcode, hsized, rfl, rfl⟩, rfl⟩
      exact ⟨v, hcode, hsized, rfl, fun h => absurd h Bool.false_ne_true, rfl, rfl⟩
  refine (sound_readString.bind fun key => (sound_readNat 4).bind fun vtype => hvalue key vtype).mono ?_
  rintro wanted' enc tail ⟨key, e₁, _, ⟨data, hlen, rfl, rfl⟩, ⟨vtype, e₂, e₃, ⟨-, rfl⟩,
    ⟨v, rfl, hsized, rfl, hstring, rfl, rfl⟩, rfl⟩, rfl⟩
  exact ⟨⟨data, v⟩, ⟨hlen, hsized, hstring⟩, rfl, rfl, rfl⟩

theorem needs_readPair (wanted : Wanted) : NeedsInput (readPair wanted) :=
  NeedsInput.bind (NeedsInput.bind (needs_readNat (by decide)))

theorem sound_probeBody (py : PyText) (filename : String) :
    Sound (probeBody py filename) fun info enc tail => info = { valid := false } ∨
      ∃ h : Header, h.Readable ∧ info = summarize py filename h.wanted ∧ enc = h.encode ∧
        tail = h.tail := by
  have hloop (n : Nat) := (Sound.forRange needs_readPair sound_readPair n []).andThen
    (k := fun wanted => Reader.ret (summarize py filename wanted)) fun _ => rfl
  have hcounts := (sound_readNat 4).bind fun _ =>
    (sound_readNat 8).bind fun _ => (sound_readNat 8).bind hloop
  have hmagic (magic : List UInt8) : Sound
      (if magic ≠ ggufMagic then (Reader.ret { valid := false } : GgufReader GgufInfo)
        else (readNat 4).bind fun _ => (readNat 8).bind fun _ => (readNat 8).bind fun kvCount =>
          (forRange readPair kvCount []).bind fun wanted => Reader.ret
            (summarize py filename wanted))
      fun info enc tail => info = { valid := false } ∨ magic = ggufMagic ∧
        ∃ h : Header, h.Readable ∧ info = summarize py filename h.wanted ∧
          h.encode = ggufMagic ++ enc ∧ tail = h.tail := by
    split
    · refine (Sound.ret _).mono ?_
      rintro info enc tail ⟨rfl, -⟩
      exact .inl rfl
    · next hmagic =>
      refine hcounts.mono ?_
      rintro info enc tail ⟨version, _, _, ⟨hversion, rfl⟩, ⟨tensorCount, _, _, ⟨htensors, rfl⟩,
        ⟨count, _, _, ⟨hcount, rfl⟩, ⟨_, ⟨pairs, rfl, hpairs, rfl, rfl, rfl⟩, rfl⟩, rfl⟩, rfl⟩, rfl⟩
      exact .inr ⟨not_not.mp hmagic, ⟨version, tensorCount, pairs⟩,
        ⟨hversion, htensors, hcount, hpairs⟩, rfl, rfl, rfl⟩
  refine ((sound_read 4).bind hmagic).mono ?_
  rintro info enc tail ⟨magic, e₁, e₂, ⟨rfl, -⟩, hinfo | ⟨rfl, h, hr, hinfo, henc, htail⟩, rfl⟩
  · exact .inl hinfo
  · exact .inr ⟨h, hr, hinfo, henc.symm, htail⟩

/-! ## Whole files and cut ones -/

/-- The metadata lie inside the file. -/
def WholeMetadata (f : ByteFile) : Prop :=
  ∃ (h : Header) (rest : List UInt8), h.Readable ∧ f.bytes = h.encode ++ rest

/-- The file is a header that ends too early, inside the bytes of its last value that are only
passed over. -/
def CutInTail (f : ByteFile) : Prop :=
  ∃ h : Header, h.Readable ∧ h.encode.length ≤ f.maxOffset ∧ f.bytes <+: h.encode ∧
    f.bytes.length < h.encode.length ∧ h.encode.length ≤ f.bytes.length + h.tail

def ReportsValid (py : PyText) (filename : String) (f : ByteFile) : Prop :=
  ∃ info, (probe py filename f).1 = .ok info ∧ info.valid = true

variable {py : PyText} {filename : String}

theorem reportsValid_iff : ReportsValid py filename f ↔
    ∃ info c, probeBody py filename f {} = (.ok info, c) ∧ info.valid = true := by
  unfold ReportsValid probe
  cases hbody : probeBody py filename f {} with
  | mk r c =>
    cases r with
    | ok info => simp
    | error e =>
      simp only
      split <;> simp

/-- Where the cursor stands after a header that is there as far as it is read. -/
theorem pos_of_has (py : PyText) (filename : String) {h : Header} (hr : h.Readable)
    (hhas : Has f 0 h.encode h.tail) (hle : h.encode.length ≤ f.maxOffset) :
    ∃ i, probeBody py filename f {} = (.ok (summarize py filename h.wanted),
      ⟨h.encode.length, i⟩) := by
  obtain ⟨i, hi⟩ := reads_probeBody py filename hr f {} hhas
      (by show 0 + h.encode.length ≤ _; omega)
  exact ⟨i, by rw [hi, Nat.zero_add]⟩

theorem has_of_append {h : Header} {rest : List UInt8} (hf : f.bytes = h.encode ++ rest) :
    Has f 0 h.encode h.tail := by
  unfold Has
  rw [List.drop_zero, hf]
  exact (List.take_prefix _ _).trans (List.prefix_append _ _)

theorem has_of_cut {h : Header} (hpre : f.bytes <+: h.encode)
    (htail : h.encode.length ≤ f.bytes.length + h.tail) : Has f 0 h.encode h.tail := by
  unfold Has
  rw [List.drop_zero, List.prefix_iff_eq_take.mp hpre]
  exact List.take_prefix_take_left (by omega)

/-- The header of a file is where the cursor says. -/
theorem pos_of_whole (py : PyText) (filename : String) {h : Header} (hr : h.Readable)
    {rest : List UInt8} (hf : f.bytes = h.encode ++ rest) :
    ∃ i, probeBody py filename f {} = (.ok (summarize py filename h.wanted),
      ⟨h.encode.length, i⟩) := by
  have hlen := f.length_le
  rw [hf, List.length_append] at hlen
  exact pos_of_has py filename hr (has_of_append hf) (by omega)

/-- A cut file is taken for a whole one, and is none. -/
theorem cut_reportsValid (h : CutInTail f) : ReportsValid py filename f ∧ ¬WholeMetadata f := by
  obtain ⟨h, hr, hle, hpre, hlt, htail⟩ := h
  obtain ⟨i, hi⟩ := pos_of_has py filename hr (has_of_cut hpre htail) hle
  refine ⟨reportsValid_iff.mpr ⟨_, _, hi, rfl⟩, ?_⟩
  rintro ⟨h', rest, hr', hf⟩
  obtain ⟨j, hj⟩ := pos_of_whole py filename hr' hf
  rw [hi] at hj
  have hpos : h.encode.length = h'.encode.length := congrArg (fun r => r.2.pos) hj
  rw [hf, List.length_append] at hlt
  omega

theorem whole_or_cut (h : ReportsValid py filename f) : WholeMetadata f ∨ CutInTail f := by
  obtain ⟨info, c, hbody, hvalid⟩ := reportsValid_iff.mp h
  obtain ⟨enc, tail, hq, hag, hpos, hle, hmax⟩ :=
    sound_probeBody py filename f {} info c (Nat.zero_le _) hbody
  rcases hq with rfl | ⟨h, hr, -, rfl, rfl⟩
  · cases hvalid
  · rw [Nat.zero_add] at hpos
    rw [hpos] at hle hmax
    unfold Agrees at hag
    rw [Nat.sub_zero, List.drop_zero] at hag
    rcases Nat.lt_or_ge f.bytes.length h.encode.length with hlt | hge
    · have hpre : f.bytes <+: h.encode := by
        have heq := List.IsPrefix.eq_of_length hag (by rw [List.length_take]; omega)
        rw [← heq]
        exact List.take_prefix _ _
      exact .inr ⟨h, hr, hmax, hpre, hlt, hle⟩
    · rw [List.take_of_length_le hge] at hag
      obtain ⟨rest, hrest⟩ := hag
      exact .inl ⟨h, rest, hr, hrest.symm⟩

theorem truncated_not_whole {h : Header} (hr : h.Readable) (hlen : h.encode.length < 2 ^ 63)
    (hpre : f.bytes <+: h.encode) (hlt : f.bytes.length < h.encode.length) : ¬WholeMetadata f := by
  rintro ⟨h', rest, hr', hf⟩
  obtain ⟨more, hmore⟩ := hpre
  -- both headers stand at the front of the file before it was cut
  let uncut : ByteFile := ⟨h.encode, h.encode.length, Nat.le_refl _, hlen⟩
  have hboth : uncut.bytes = h'.encode ++ (rest ++ more) := by
    rw [← List.append_assoc, ← hf]
    exact hmore.symm
  let py : PyText := ⟨fun _ => "", fun _ => false⟩
  obtain ⟨i, hi⟩ := pos_of_whole (f := uncut) py "" hr (List.append_nil _).symm
  obtain ⟨j, hj⟩ := pos_of_whole py "" hr' hboth
  rw [hi] at hj
  have hpos : h.encode.length = h'.encode.length := congrArg (fun r => r.2.pos) hj
  rw [hf, List.length_append] at hlt
  omega

/-- The files of which `probe` says valid only when they are whole: all but those that are cut
inside the bytes of the last value that it passes over. -/
theorem valid_whole_iff (py : PyText) (filename : String) (f : ByteFile) :
    ((ReportsValid py filename f → WholeMetadata f) ∧
      ∀ h : Header, h.Readable → h.encode.length < 2 ^ 63 → f.bytes <+: h.encode →
        f.bytes.length < h.encode.length → ¬ReportsValid py filename f) ↔
      ¬CutInTail f := by
  constructor
  · rintro ⟨hwhole, -⟩ hcut
    obtain ⟨hvalid, hnot⟩ := cut_reportsValid hcut
    exact hnot (hwhole hvalid)
  · intro hcut
    have hwhole : ReportsValid py filename f → WholeMetadata f :=
      fun hvalid => (whole_or_cut hvalid).resolve_right hcut
    exact ⟨hwhole, fun h hr hlen hpre hlt hvalid => truncated_not_whole hr hlen hpre hlt
      (hwhole hvalid)⟩

/-- One pair, `a` with a 64-bit number. -/
def oneNumber : Header := ⟨3, 0, [⟨[97], .scalar .uint64 [0, 0, 0, 0, 0, 0, 0, 0]⟩]⟩

/-- Six of the last eight bytes are missing. -/
theorem oneNumber_cut :
    ∃ f : ByteFile, f.bytes = oneNumber.encode.take 39 ∧ f.bytes.length < oneNumber.encode.length ∧
      ∀ py filename, ReportsValid py filename f ∧ ¬WholeMetadata f := by
  have hreadable : oneNumber.Readable := by
    refine ⟨by decide, by decide, by decide, ?_⟩
    intro p hp
    rw [List.mem_singleton.mp hp]
    exact ⟨by decide, rfl, fun _ data hdata => by cases hdata⟩
  let f : ByteFile := ⟨oneNumber.encode.take 39, 100, by decide, by decide⟩
  have hcut : CutInTail f :=
    ⟨oneNumber, hreadable, by decide, List.take_prefix 39 _, by decide, by decide⟩
  exact ⟨f, rfl, by decide, fun py filename => cut_reportsValid hcut⟩

/-! ## What it costs -/

/-- What the `except` of `probe` catches. -/
def Caught (e : GgufExc) : Prop := e.caught = true

theorem paid_read {n d : Nat} (hn : d ≤ n) (hd : d ≤ 8) : Paid Caught 8 d (read n) := by
  intro f c
  refine ⟨fun data c' h => ?_, fun e c' h => ?_⟩
  · obtain ⟨hdata, hlen, rfl⟩ := read_ok h
    rw [hdata, List.length_take, List.length_drop] at hlen
    simp only [unread]
    omega
  · simp only [read_eq, Reader.bind, Reader.read] at h
    split at h
    · cases h
      exact ⟨rfl, by show 8 * c.iterations + d ≤ _; omega⟩
    · cases h

theorem paid_readNat {size d : Nat} (hn : d ≤ size) (hd : d ≤ 8) :
    Paid Caught 8 d (readNat size) := by
  refine (paid_read hn hd).bind fun data => ?_
  unfold unpackNat
  split
  · exact Paid.raise rfl
  · exact Paid.ret _

theorem paid_seek (n : Nat) : Paid Caught 8 0 (seek n) := by
  refine Paid.seek n ?_
  split <;> rfl

theorem paid_readString : Paid Caught 8 8 readString := by
  refine (paid_readNat (by decide) (by decide)).bind fun length => ?_
  split
  · exact Paid.raise rfl
  · exact (paid_read (Nat.zero_le _) (by decide)).bind fun data => Paid.ret _

theorem paid_skipString : Paid Caught 8 8 skipString :=
  (paid_readNat (by decide) (by decide)).bind paid_seek

theorem paid_skipArray : Paid Caught 8 0 skipArray := by
  refine (paid_readNat (Nat.zero_le _) (by decide)).bind fun elemType => ?_
  refine (paid_readNat (Nat.zero_le _) (by decide)).bind fun count => ?_
  unfold skipElements
  cases scalar elemType with
  | some t => exact paid_seek _
  | none =>
    dsimp only
    split
    · exact Paid.forRange (fun _ => paid_skipString) count ()
    · exact Paid.raise rfl

theorem paid_skipValue (vtype : Nat) : Paid Caught 8 0 (skipValue vtype) := by
  unfold skipValue
  cases scalar vtype with
  | some t => exact paid_seek _
  | none =>
    dsimp only
    split
    · exact paid_skipString.zero
    · split
      · exact paid_skipArray
      · exact Paid.raise rfl

theorem paid_readScalarValue (vtype : Nat) : Paid Caught 8 0 (readScalarValue vtype) := by
  unfold readScalarValue
  cases hscalar : scalar vtype with
  | some t =>
    have hread : Paid Caught 8 0 (readScalar vtype) := by
      unfold readScalar
      rw [hscalar]
      refine (paid_read (Nat.zero_le _) (by decide)).bind fun data => ?_
      unfold unpackScalar
      split
      · exact Paid.raise rfl
      · exact Paid.ret _
    rw [Option.isSome_some, if_pos rfl]
    exact hread.bind fun _ => Paid.ret _
  | none =>
    rw [Option.isSome_none, if_neg Bool.false_ne_true]
    split
    · exact paid_readString.zero.bind fun _ => Paid.ret _
    · exact (paid_skipValue vtype).bind fun _ => Paid.ret _

theorem paid_readPair (wanted : Wanted) : Paid Caught 8 8 (readPair wanted) := by
  refine paid_readString.bind fun key => ?_
  refine (paid_readNat (Nat.zero_le _) (by decide)).bind fun vtype => ?_
  unfold readValue
  split
  · exact (paid_readScalarValue vtype).bind fun value => Paid.ret _
  · exact (paid_skipValue vtype).bind fun _ => Paid.ret _

theorem paid_probeBody (py : PyText) (filename : String) :
    Paid Caught 8 4 (probeBody py filename) := by
  refine (paid_read (by decide) (by decide)).bind fun magic => ?_
  split
  · exact Paid.ret _
  · refine (paid_readNat (Nat.zero_le _) (by decide)).bind fun _ => ?_
    refine (paid_readNat (Nat.zero_le _) (by decide)).bind fun _ => ?_
    refine (paid_readNat (Nat.zero_le _) (by decide)).bind fun kvCount => ?_
    exact (Paid.forRange paid_readPair kvCount []).bind fun wanted => Paid.ret _

/-- Whatever the file: `probe` returns, and its loops make no more passes than the file has
bytes. -/
theorem probe_bounded (py : PyText) (filename : String) (f : ByteFile) :
    (∃ info, (probe py filename f).1 = .ok info) ∧
      (probe py filename f).2.iterations ≤ f.bytes.length := by
  have hpaid := paid_probeBody py filename f {}
  unfold probe
  cases hbody : probeBody py filename f {} with
  | mk r c =>
    cases r with
    | ok info =>
      have hcost := hpaid.1 info c hbody
      simp only [unread] at hcost
      exact ⟨⟨info, rfl⟩, by show c.iterations ≤ _; omega⟩
    | error e =>
      obtain ⟨hcaught, hcost⟩ := hpaid.2 e c hbody
      simp only [unread] at hcost
      rw [Caught] at hcaught
      simp only [hcaught, if_true]
      exact ⟨⟨_, rfl⟩, by omega⟩

end Gguf
end InferenceEngine
