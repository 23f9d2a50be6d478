import InferenceEngine.Lib.Percent

/-!
# Lib.UriCoding

The encodings of URLs in a browser, over characters: `encodeURIComponent` and `decodeURIComponent`,
which raises for what is not UTF-8, and the queries that `URLSearchParams` reads and writes.

* `decodeURIComponent_encode`: what is encoded is decoded to itself.
* `parseQuery_serialize`: and so is a list of parameters.
* `unquotePlus_quotePlus`: what `urllib.parse` quotes, it reads back.
-/

namespace UriCoding

open Utf8 (Pending)

/-- A byte that may come next; after another one there is no character. -/
def strict : Option Pending → UInt8 → Option (List Char × Option Pending)
  | none, b =>
    if b.toNat < 0x80 ∨ 0xC2 ≤ b.toNat ∧ b.toNat ≤ 0xF4 then some (Utf8.step none b) else none
  | some p, b => if p.lo ≤ b.toNat ∧ b.toNat ≤ p.hi then some (Utf8.step (some p) b) else none

/-- The characters of bytes, as far as they are complete. -/
def run : Option Pending → List UInt8 → Option (List Char × Option Pending)
  | p, [] => some ([], p)
  | p, b :: bs => (strict p b).bind fun r => (run r.2 bs).map fun r' => (r.1 ++ r'.1, r'.2)

def escape (b : UInt8) : List Char :=
  ['%', Percent.digit (b.toNat / 16), Percent.digit (b.toNat % 16)]

/-- The characters that `encodeURIComponent` keeps. -/
def unreserved (c : Char) : Bool :=
  c.isAlphanum || c ∈ ['-', '_', '.', '!', '~', '*', '\'', '(', ')']

/-- The characters that `URLSearchParams` keeps. -/
def formKept (c : Char) : Bool := c.isAlphanum || c ∈ ['*', '-', '.', '_']

/-- The characters that `quote_plus` keeps. -/
def quoteKept (safe : List Char) (c : Char) : Bool :=
  decide (c.toNat < 128) && (c.isAlphanum || c ∈ ['_', '.', '-', '~'] || c ∈ safe)

/-- A character as it is, if it is one of those, or else as the escapes of its bytes. -/
def encodeChar (keep : Char → Bool) (c : Char) : List Char :=
  if keep c then [c] else (String.utf8EncodeChar c).flatMap escape

def encodeURIComponent (cs : List Char) : List Char := cs.flatMap (encodeChar unreserved)

def decodeFrom (p : Option Pending) : List Char → Option (List Char)
  | [] => if p.isSome then none else some []
  | '%' :: x :: y :: cs =>
    match Percent.hexByte x y with
    | some b =>
      match strict p b with
      | some (out, p') => (decodeFrom p' cs).map (out ++ ·)
      | none => none
    | none => none
  | c :: cs => if c = '%' ∨ p.isSome then none else (decodeFrom none cs).map (c :: ·)

/-- `decodeURIComponent`; a `URIError` is `none`. -/
def decodeURIComponent (cs : List Char) : Option (List Char) := decodeFrom none cs

/-- The serializer of `application/x-www-form-urlencoded`, of one text. -/
def formEncode (cs : List Char) : List Char :=
  cs.flatMap fun c => if c = ' ' then ['+'] else encodeChar formKept c

/-- `URLSearchParams.toString`. -/
def serializeQuery (q : List (List Char × List Char)) : List Char :=
  ['&'].intercalate (q.map fun kv => formEncode kv.1 ++ '=' :: formEncode kv.2)

/-- `new URLSearchParams(text)`, of a text that does not begin with a question mark. -/
def parseQuery (text : List Char) : List (List Char × List Char) :=
  ((text.splitOn '&').filter (· ≠ [])).map fun field =>
    (Percent.unquotePlus (Py.partition '=' field).1, Percent.unquotePlus (Py.partition '=' field).2)

/-- `URLSearchParams.set`. -/
def setParam (q : List (List Char × List Char)) (k v : List Char) : List (List Char × List Char) :=
  if q.any (·.1 = k) then
    q.takeWhile (·.1 ≠ k) ++ (k, v) :: ((q.dropWhile (·.1 ≠ k)).drop 1).filter (·.1 ≠ k)
  else q ++ [(k, v)]

/-! ## Bytes -/

theorem strict_more {p : Pending} {n : Nat} (hn : n < 256) (hlo : p.lo ≤ n) (hhi : n ≤ p.hi)
    (hneed : p.need ≠ 1) :
    strict (some p) (UInt8.ofNat n) = some ([],
      some ⟨p.need - 1, p.code * 64 + (n - 0x80), 0x80, 0xBF⟩) := by
  rw [strict, Utf8.toNat_ofNat hn, if_pos ⟨hlo, hhi⟩, Utf8.step_more hn hlo hhi hneed]

theorem strict_last {p : Pending} {n : Nat} (hn : n < 256) (hlo : p.lo ≤ n) (hhi : n ≤ p.hi)
    (hneed : p.need = 1) :
    strict (some p) (UInt8.ofNat n) = some ([Char.ofNat (p.code * 64 + (n - 0x80))], none) := by
  rw [strict, Utf8.toNat_ofNat hn, if_pos ⟨hlo, hhi⟩, Utf8.step_last hn hlo hhi hneed]

theorem strict_first {n : Nat} (hn : n < 0xF5) (h : n < 0x80 ∨ 0xC2 ≤ n) :
    strict none (UInt8.ofNat n) = some (Utf8.first (UInt8.ofNat n)) := by
  rw [strict, Utf8.toNat_ofNat (by omega), if_pos (by omega)]
  rfl

theorem step_of_strict {p : Option Pending} {b : UInt8} {r : List Char × Option Pending}
    (h : strict p b = some r) :
    Utf8.step p b = r := by
  cases p with
  | none =>
    rw [strict] at h
    split at h
    · exact Option.some.inj h
    · cases h
  | some p =>
    rw [strict] at h
    split at h
    · exact Option.some.inj h
    · cases h

/-- The bytes of a character are read as one, and nothing is left. -/
theorem run_encodeChar (c : Char) : run none (String.utf8EncodeChar c) = some ([c], none) := by
  have hval := Utf8.val_bounds c
  have hchar : ∀ n, n = c.val.toNat → Char.ofNat n = c := fun _ => Utf8.ofNat_val c
  simp only [String.utf8EncodeChar]
  generalize c.val.toNat = v at hval hchar
  split
  · simp only [run]
    rw [strict_first (by omega) (by omega), Utf8.first_one (by omega), hchar v rfl]
    rfl
  · split
    · simp only [run]
      rw [strict_first (by omega) (by omega), Utf8.first_two (by omega) (by omega)]
      simp only [Option.bind_some]
      rw [strict_last (by omega) (by simp) (by simp; omega) rfl, hchar _ (by simp; omega)]
      rfl
    · split
      · simp only [run]
        rw [strict_first (by omega) (by omega), Utf8.first_three (by omega) (by omega)]
        simp only [Option.bind_some]
        rw [strict_more (by omega) (by simp; split <;> omega) (by simp; split <;> omega) (by simp)]
        simp only [Option.bind_some]
        rw [strict_last (by omega) (by simp) (by simp; omega) rfl, hchar _ (by simp; omega)]
        rfl
      · simp only [run]
        rw [strict_first (by omega) (by omega), Utf8.first_four (by omega) (by omega)]
        simp only [Option.bind_some]
        rw [strict_more (by omega) (by simp; split <;> omega) (by simp; split <;> omega) (by simp)]
        simp only [Option.bind_some]
        rw [strict_more (by omega) (by simp) (by simp; omega) (by simp)]
        simp only [Option.bind_some]
        rw [strict_last (by omega) (by simp) (by simp; omega) rfl, hchar _ (by simp; omega)]
        rfl

theorem hexDigit_digit {n : Nat} (hn : n < 16) : Percent.hexDigit (Percent.digit n) = some n := by
  revert n
  decide

theorem hexByte_digits (b : UInt8) :
    Percent.hexByte (Percent.digit (b.toNat / 16)) (Percent.digit (b.toNat % 16)) = some b := by
  have hb := b.toNat_lt
  rw [Percent.hexByte, hexDigit_digit (by omega), hexDigit_digit (by omega)]
  have hsum : 16 * (b.toNat / 16) + b.toNat % 16 = b.toNat := Nat.div_add_mod ..
  simp only [hsum, UInt8.ofNat_toNat]

/-! ## Escapes -/

theorem flatMap_escape_cons (b : UInt8) (bs : List UInt8) (rest : List Char) :
    (b :: bs).flatMap escape ++ rest =
      '%' :: Percent.digit (b.toNat / 16) :: Percent.digit (b.toNat % 16) ::
      (bs.flatMap escape ++ rest) := rfl

theorem decodeFrom_escapes {bs : List UInt8} (rest : List Char) :
    ∀ {p : Option Pending} {out : List Char} {p' : Option Pending}, run p bs = some (out, p') →
      decodeFrom p (bs.flatMap escape ++ rest) = (decodeFrom p' rest).map (out ++ ·) := by
  induction bs with
  | nil =>
    intro p out p' h
    cases h
    simp
  | cons b bs ih =>
    intro p out p' h
    obtain ⟨⟨o, q⟩, hb, h⟩ := Option.bind_eq_some_iff.mp h
    obtain ⟨⟨o', q'⟩, hbs, heq⟩ := Option.map_eq_some_iff.mp h
    cases heq
    rw [flatMap_escape_cons, decodeFrom, hexByte_digits]
    simp only [hb, ih hbs, Option.map_map]
    refine congrArg (fun f => (decodeFrom q' rest).map f) (funext fun cs => ?_)
    simp

theorem unquoteFrom_escapes {bs : List UInt8} (rest : List Char) :
    ∀ {p : Option Pending} {out : List Char} {p' : Option Pending}, run p bs = some (out, p') →
      Percent.unquoteFrom p (bs.flatMap escape ++ rest) = out ++ Percent.unquoteFrom p' rest := by
  induction bs with
  | nil =>
    intro p out p' h
    cases h
    rfl
  | cons b bs ih =>
    intro p out p' h
    obtain ⟨⟨o, q⟩, hb, h⟩ := Option.bind_eq_some_iff.mp h
    obtain ⟨⟨o', q'⟩, hbs, heq⟩ := Option.map_eq_some_iff.mp h
    cases heq
    rw [flatMap_escape_cons, Percent.unquoteFrom, hexByte_digits]
    simp only [step_of_strict hb, ih hbs, List.append_assoc]

theorem decodeFrom_cons {c : Char} (hc : c ≠ '%') (rest : List Char) :
    decodeFrom none (c :: rest) = (decodeFrom none rest).map (c :: ·) := by
  rw [decodeFrom.eq_def]
  split
  · next hnil => cases hnil
  · next heq => exact absurd (List.cons.inj heq).1 hc
  · next heq =>
    cases heq
    rw [if_neg (by simp [hc])]

theorem unquoteFrom_cons {c : Char} (hc : c ≠ '%') (rest : List Char) :
    Percent.unquoteFrom none (c :: rest) = c :: Percent.unquoteFrom none rest := by
  rw [Percent.unquoteFrom_literal fun h => absurd h hc,
    Percent.literal_eq (fun q hq => by cases hq)]
  rfl

section Keep

variable {keep : Char → Bool} (hkeep : keep '%' = false)
include hkeep

theorem kept_ne {c : Char} (hc : keep c = true) : c ≠ '%' := by
  rintro rfl
  cases hkeep.symm.trans hc

theorem decodeFrom_encodeChar (c : Char) (rest : List Char) :
    decodeFrom none (encodeChar keep c ++ rest) = (decodeFrom none rest).map (c :: ·) := by
  unfold encodeChar
  split
  · next hc => exact decodeFrom_cons (kept_ne hkeep hc) rest
  · exact decodeFrom_escapes rest (run_encodeChar c)

theorem unquoteFrom_encodeChar (c : Char) (rest : List Char) :
    Percent.unquoteFrom none (encodeChar keep c ++ rest) = c :: Percent.unquoteFrom none rest := by
  unfold encodeChar
  split
  · next hc => exact unquoteFrom_cons (kept_ne hkeep hc) rest
  · exact unquoteFrom_escapes rest (run_encodeChar c)

end Keep

theorem decodeURIComponent_encode (cs : List Char) :
    decodeURIComponent (encodeURIComponent cs) = some cs := by
  unfold decodeURIComponent encodeURIComponent
  induction cs with
  | nil => rfl
  | cons c cs ih => rw [List.flatMap_cons, decodeFrom_encodeChar (by decide), ih, Option.map_some]

/-! ## What an encoded text is made of -/

theorem mem_encodeChar {keep : Char → Bool} {c d : Char} (h : d ∈ encodeChar keep c) :
    keep d = true ∨ d = '%' ∨ d ∈ "0123456789ABCDEF".toList := by
  unfold encodeChar at h
  split at h
  · next hc =>
    obtain rfl := List.mem_singleton.mp h
    exact .inl hc
  · obtain ⟨b, -, hd⟩ := List.mem_flatMap.mp h
    have hb := b.toNat_lt
    simp only [escape, List.mem_cons, List.not_mem_nil, or_false] at hd
    rcases hd with rfl | rfl | rfl
    · exact .inr (.inl rfl)
    · exact .inr (.inr (Percent.digit_mem (by omega)))
    · exact .inr (.inr (Percent.digit_mem (by omega)))

theorem encodeChar_ne_nil (keep : Char → Bool) (c : Char) : encodeChar keep c ≠ [] := by
  unfold encodeChar
  split
  · exact List.cons_ne_nil _ _
  · have hlen := String.length_utf8EncodeChar c
    cases hbytes : String.utf8EncodeChar c with
    | nil =>
      rw [hbytes] at hlen
      exact absurd hlen (Nat.ne_of_lt c.utf8Size_pos)
    | cons b bs => simp [escape]

theorem encodeURIComponent_eq_nil {cs : List Char} : encodeURIComponent cs = [] ↔ cs = [] := by
  rw [encodeURIComponent, List.flatMap_eq_nil_iff]
  constructor
  · intro h
    cases cs with
    | nil => rfl
    | cons c cs => exact absurd (h c List.mem_cons_self) (encodeChar_ne_nil _ c)
  · rintro rfl
    simp

theorem notMem_encodeURIComponent {d : Char} (hd : unreserved d = false ∧ d ≠ '%' ∧
    d ∉ "0123456789ABCDEF".toList) (cs : List Char) : d ∉ encodeURIComponent cs := by
  intro h
  obtain ⟨c, -, hc⟩ := List.mem_flatMap.mp h
  rcases mem_encodeChar hc with hk | hp | hx
  · cases hd.1.symm.trans hk
  · exact hd.2.1 hp
  · exact hd.2.2 hx

theorem notMem_formEncode {d : Char}
    (hd : formKept d = false ∧ d ≠ '%' ∧ d ∉ "0123456789ABCDEF".toList ∧ d ≠ '+') (cs : List Char) :
    d ∉ formEncode cs := by
  intro h
  obtain ⟨c, -, hc⟩ := List.mem_flatMap.mp h
  split at hc
  · exact hd.2.2.2 (List.mem_singleton.mp hc)
  · rcases mem_encodeChar hc with hk | hp | hx
    · cases hd.1.symm.trans hk
    · exact hd.2.1 hp
    · exact hd.2.2.1 hx

/-! ## Queries -/

/-- A space is written as a plus, any other character as it is or as the escapes of its bytes. -/
theorem unquotePlus_flatMap {keep : Char → Bool} (hpercent : keep '%' = false)
    (hplus : keep '+' = false) (cs : List Char) :
    Percent.unquotePlus (cs.flatMap fun c => if c =
      ' ' then ['+'] else encodeChar keep c) = cs := by
  have hkept (c : Char) : (encodeChar keep c).map (fun d => if d = '+' then ' ' else d) =
      encodeChar keep c := by
    refine (List.map_congr_left fun d hd => if_neg ?_).trans (List.map_id _)
    rintro rfl
    rcases mem_encodeChar hd with hk | hp | hx
    · cases hplus.symm.trans hk
    · exact absurd hp (by decide)
    · exact absurd hx (by decide)
  unfold Percent.unquotePlus Percent.unquote
  induction cs with
  | nil => rfl
  | cons c cs ih =>
    rw [List.flatMap_cons, List.map_append]
    by_cases hc : c = ' '
    · subst hc
      rw [if_pos rfl]
      exact (unquoteFrom_cons (by decide) _).trans (congrArg _ ih)
    · rw [if_neg hc, hkept, unquoteFrom_encodeChar hpercent, ih]

theorem unquotePlus_formEncode (cs : List Char) : Percent.unquotePlus (formEncode cs) = cs :=
  unquotePlus_flatMap (by decide) (by decide) cs

theorem quoteByte_escape {safe : List Char} {n : Nat} (hn : n < 256) (h : 128 ≤ n) :
    Percent.quoteByte safe (UInt8.ofNat n) = escape (UInt8.ofNat n) := by
  unfold Percent.quoteByte
  dsimp only
  rw [if_neg fun hcond => absurd hcond.1 (by rw [Utf8.toNat_ofNat hn]; omega)]
  rfl

theorem quote_char (safe : List Char) (c : Char) :
    (String.utf8EncodeChar c).flatMap (Percent.quoteByte safe) = encodeChar (quoteKept safe) c := by
  have hval := Utf8.val_bounds c
  have hchar : Char.ofNat c.val.toNat = c := Utf8.ofNat_val c rfl
  have htoNat : c.toNat = c.val.toNat := rfl
  unfold encodeChar quoteKept
  rw [htoNat]
  simp only [String.utf8EncodeChar]
  generalize c.val.toNat = v at hval hchar
  split
  · next h =>
    have hbyte := Utf8.toNat_ofNat (n := v) (by omega)
    unfold Percent.quoteByte
    dsimp only
    rw [List.flatMap_singleton, List.flatMap_singleton, hbyte, hchar]
    simp only [show v < 128 by omega, decide_true, Bool.true_and, true_and, Bool.or_eq_true, decide_eq_true_eq,
      or_assoc]
    have hescape : escape (UInt8.ofNat v) = ['%', Percent.digit (v / 16),
        Percent.digit (v % 16)] := by
      rw [escape, hbyte]
    rw [hescape]
  · next h =>
    have hlarge : ¬v < 128 := by omega
    simp only [hlarge, decide_false, Bool.false_and, Bool.false_eq_true, if_false]
    split
    · simp only [List.flatMap_cons, List.flatMap_nil]
      rw [quoteByte_escape (by omega) (by omega), quoteByte_escape (by omega) (by omega)]
    · split
      · simp only [List.flatMap_cons, List.flatMap_nil]
        rw [quoteByte_escape (by omega) (by omega), quoteByte_escape (by omega) (by omega),
          quoteByte_escape (by omega) (by omega)]
      · simp only [List.flatMap_cons, List.flatMap_nil]
        rw [quoteByte_escape (by omega) (by omega), quoteByte_escape (by omega) (by omega),
          quoteByte_escape (by omega) (by omega), quoteByte_escape (by omega) (by omega)]

theorem unquotePlus_quotePlus {safe : List Char} (hpercent : '%' ∉ safe) (hplus : '+' ∉ safe)
    (cs : List Char) :
    Percent.unquotePlus (Percent.quotePlus safe cs) = cs := by
  have hquote : Percent.quotePlus safe cs =
      cs.flatMap fun c => if c = ' ' then ['+'] else encodeChar (quoteKept safe) c := by
    unfold Percent.quotePlus
    refine congrArg (fun f => cs.flatMap f) (funext fun c => ?_)
    rw [quote_char]
  have hkept {c : Char} (hc : c ∉ safe) (h : (c.isAlphanum || c ∈ ['_', '.', '-', '~']) = false) :
      quoteKept safe c = false := by
    unfold quoteKept
    rw [h, decide_eq_false hc]
    simp
  rw [hquote, unquotePlus_flatMap (hkept hpercent (by decide)) (hkept hplus (by decide))]
theorem notMem_serialize {d : Char}
    (hd : formKept d = false ∧ d ≠ '%' ∧ d ∉ "0123456789ABCDEF".toList ∧ d ≠ '+') (hamp : d ≠ '&')
      (heq : d ≠ '=') (q : List (List Char × List Char)) : d ∉ serializeQuery q := by
  intro h
  rcases Py.mem_intercalate h with h | ⟨field, hfield, h⟩
  · exact hamp h
  · obtain ⟨kv, -, rfl⟩ := List.mem_map.mp hfield
    rcases List.mem_append.mp h with hk | hv
    · exact notMem_formEncode hd _ hk
    · rcases List.mem_cons.mp hv with hv | hv
      · exact heq hv
      · exact notMem_formEncode hd _ hv

theorem parseQuery_serialize (q : List (List Char × List Char)) :
    parseQuery (serializeQuery q) = q := by
  by_cases hq : q = []
  · subst hq
    rfl
  · have hsplit : (serializeQuery q).splitOn '&' = q.map fun kv => formEncode kv.1 ++ '=' ::
        formEncode kv.2 := by
      refine List.splitOn_intercalate '&' ?_ (by simpa using hq)
      intro field hfield
      obtain ⟨kv, -, rfl⟩ := List.mem_map.mp hfield
      simp [notMem_formEncode (d := '&') (by decide)]
    have hfields : ((serializeQuery q).splitOn '&').filter (· ≠ []) =
        q.map fun kv => formEncode kv.1 ++ '=' :: formEncode kv.2 := by
      rw [hsplit, List.filter_eq_self]
      intro field hfield
      obtain ⟨kv, -, rfl⟩ := List.mem_map.mp hfield
      simp
    rw [parseQuery, hfields, List.map_map]
    refine (List.map_congr_left fun kv _ => ?_).trans (List.map_id _)
    have heq : '=' ∉ formEncode kv.1 := notMem_formEncode (by decide) _
    simp only [Function.comp_apply, Py.partition_append heq, unquotePlus_formEncode, id_eq]

end UriCoding
