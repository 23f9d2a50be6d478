import InferenceEngine.Models.Gguf

/-!
# Models.GgufFormat

GGUF headers as they are written, and what `probe` reads of them. A value is one of the scalar
types, a string, or an array of scalars or of strings; every one of them is written with its size or
its count in front, and passing over it moves the cursor by just that size (`reads_skipValue`).

`tail` is the part of a header that is only passed over at its very end: `reads_probeBody` does not
ask for it.
-/

namespace InferenceEngine
namespace Gguf

open Reader

def ScalarType.code : ScalarType → Nat
  | uint8 => 0
  | int8 => 1
  | uint16 => 2
  | int16 => 3
  | uint32 => 4
  | int32 => 5
  | float32 => 6
  | bool => 7
  | uint64 => 10
  | int64 => 11
  | float64 => 12

/-- A value as it is stored. -/
inductive Value where
  | scalar (t : ScalarType) (data : List UInt8)
  | string (data : List UInt8)
  | scalars (t : ScalarType) (count : Nat) (data : List UInt8)
  | strings (items : List (List UInt8))
  deriving DecidableEq

structure Pair where
  key : List UInt8
  value : Value

structure Header where
  version : Nat
  tensorCount : Nat
  pairs : List Pair

/-! ## Encoding -/

def u32 (n : Nat) : List UInt8 := LittleEndian.encode 4 n

def u64 (n : Nat) : List UInt8 := LittleEndian.encode 8 n

def encodeString (data : List UInt8) : List UInt8 := u64 data.length ++ data

namespace Value

def code : Value → Nat
  | scalar t _ => t.code
  | string _ => stringType
  | scalars _ _ _ => arrayType
  | strings _ => arrayType

def payload : Value → List UInt8
  | scalar _ data => data
  | string data => encodeString data
  | scalars t count data => u32 t.code ++ (u64 count ++ data)
  | strings items => u32 stringType ++ (u64 items.length ++ items.flatMap encodeString)

/-- The counts are those of the data, and fit in 64 bits. -/
def Sized : Value → Prop
  | scalar t data => data.length = t.size
  | string data => data.length < 2 ^ 64
  | scalars t count data => count < 2 ^ 64 ∧ data.length = t.size * count
  | strings items => items.length < 2 ^ 64 ∧ ∀ data ∈ items, data.length < 2 ^ 64

/-- The bytes at the end of a value that are passed over without a look. -/
def skipTail : Value → Nat
  | scalar _ data => data.length
  | string data => data.length
  | scalars _ _ data => data.length
  | strings items => lastTail List.length items

/-- What is kept of a value that is of interest. -/
def found : Value → Option MetaValue
  | scalar t data => some (t.value data)
  | string data => some (.str (String.ofList (Utf8.decode data)))
  | scalars _ _ _ => none
  | strings _ => none

end Value

namespace Pair

def encode (p : Pair) : List UInt8 := encodeString p.key ++ (u32 p.value.code ++ p.value.payload)

/-- The key as it is decoded. -/
def name (p : Pair) : String := String.ofList (Utf8.decode p.key)

/-- Within the guard of `_read_string` where it is read, and sized as it says. -/
structure Readable (p : Pair) : Prop where
  key : p.key.length ≤ maxString
  sized : p.value.Sized
  string : ofInterest p.name = true → ∀ data, p.value = .string data → data.length ≤ maxString

/-- What a pair adds to the pairs that are wanted. -/
def addTo (wanted : Wanted) (p : Pair) : Wanted :=
  if ofInterest p.name then keepValue wanted p.name p.value.found else wanted

def tail (p : Pair) : Nat :=
  if ofInterest p.name && p.value.found.isSome then 0 else p.value.skipTail

end Pair

namespace Header

def encode (h : Header) : List UInt8 :=
  ggufMagic ++ (u32 h.version ++
    (u64 h.tensorCount ++ (u64 h.pairs.length ++ h.pairs.flatMap Pair.encode)))

structure Readable (h : Header) : Prop where
  version : h.version < 2 ^ 32
  tensorCount : h.tensorCount < 2 ^ 64
  count : h.pairs.length < 2 ^ 64
  pairs : ∀ p ∈ h.pairs, p.Readable

def tail (h : Header) : Nat := lastTail Pair.tail h.pairs

def wanted (h : Header) : Wanted := h.pairs.foldl Pair.addTo []

end Header

/-! ## Reading -/

theorem scalar_code (t : ScalarType) : scalar t.code = some t := by
  cases t <;> rfl

theorem code_lt (v : Value) : v.code < 2 ^ 32 := by
  have hscalar (t : ScalarType) : t.code < 2 ^ 32 := by cases t <;> decide
  have hstring : stringType < 2 ^ 32 := by decide
  have harray : arrayType < 2 ^ 32 := by decide
  cases v with
  | scalar t data => exact hscalar t
  | string data => exact hstring
  | scalars t count data => exact harray
  | strings items => exact harray

theorem read_eq (n : Nat) :
    read n = (Reader.read n).bind fun data =>
      if data.length ≠ n then Reader.raise (.eofError "unexpected end of GGUF header")
      else Reader.ret data := rfl

theorem reads_read {n : Nat} {data : List UInt8} (h : data.length = n) :
    Reads (read n) data 0 data := by
  intro f c hhas _
  have htake : (f.bytes.drop c.pos).take n = data := by
    unfold Has at hhas
    rw [Nat.sub_zero, List.take_length] at hhas
    rw [← h]
    exact (List.prefix_iff_eq_take.mp hhas).symm
  refine ⟨c.iterations, ?_⟩
  simp only [read_eq, Reader.bind, Reader.read, htake, h, ne_eq, not_true, if_false, Reader.ret]

theorem reads_readNat {size n : Nat} (h : n < 256 ^ size) :
    Reads (readNat size) (LittleEndian.encode size n) 0 n := by
  have hunpack : Reads (unpackNat size (LittleEndian.encode size n)) [] 0 n := by
    unfold unpackNat
    rw [if_neg (by rw [LittleEndian.length_encode]; exact not_not.mpr rfl),
      LittleEndian.decode_encode h]
    exact Reads.ret n
  have hboth := (reads_read (LittleEndian.length_encode size n)).bind hunpack (Nat.le_refl 0)
  rwa [List.append_nil] at hboth

theorem reads_u32 {n : Nat} (h : n < 2 ^ 32) : Reads (readNat 4) (u32 n) 0 n :=
  reads_readNat h

theorem reads_u64 {n : Nat} (h : n < 2 ^ 64) : Reads (readNat 8) (u64 n) 0 n :=
  reads_readNat h

theorem reads_readString {data : List UInt8} (h : data.length ≤ maxString) :
    Reads readString (encodeString data) 0 (String.ofList (Utf8.decode data)) := by
  have hlen : data.length < 2 ^ 64 := lt_of_le_of_lt h (by decide)
  refine (reads_u64 hlen).bind ?_ (Nat.zero_le _)
  rw [if_neg (Nat.not_lt.mpr h)]
  have hboth := (reads_read (rfl : data.length = data.length)).bind
    (k := fun d => Reader.ret (String.ofList (Utf8.decode d))) (Reads.ret _) (Nat.le_refl 0)
  rwa [List.append_nil] at hboth

theorem reads_seek {n : Nat} {data : List UInt8} (h : data.length = n) :
    Reads (seek n) data data.length () := by
  intro f c _ hle
  refine ⟨c.iterations, ?_⟩
  rw [h] at hle ⊢
  simp only [seek, Reader.seek, if_pos hle]

theorem reads_skipString {data : List UInt8} (h : data.length < 2 ^ 64) :
    Reads skipString (encodeString data) data.length () :=
  (reads_u64 h).bind (reads_seek rfl) (Nat.le_refl _)

theorem length_le_encodeString (data : List UInt8) : data.length ≤ (encodeString data).length := by
  rw [encodeString, List.length_append]
  omega

theorem lastTail_strings_le (items : List (List UInt8)) :
    lastTail List.length items ≤ (items.flatMap encodeString).length :=
  lastTail_le fun data _ => length_le_encodeString data

theorem skipTail_le (v : Value) : v.skipTail ≤ v.payload.length := by
  cases v with
  | scalar t data => exact Nat.le_refl _
  | string data => exact length_le_encodeString data
  | scalars t count data =>
    simp only [Value.skipTail, Value.payload, List.length_append]
    omega
  | strings items =>
    have hlast := lastTail_strings_le items
    simp only [Value.skipTail, Value.payload, List.length_append]
    omega

theorem reads_skipArray_scalars {t : ScalarType} {count : Nat} {data : List UInt8}
    (hcount : count < 2 ^ 64) (h : data.length = t.size * count) :
    Reads skipArray (Value.scalars t count data).payload data.length () := by
  have hcode := code_lt (.scalar t data)
  refine (reads_u32 hcode).bind ((reads_u64 hcount).bind ?_ (Nat.le_refl _)) ?_
  · simp only [skipElements, Value.code, scalar_code]
    exact reads_seek h
  · rw [List.length_append]
    omega

theorem reads_skipArray_strings {items : List (List UInt8)} (hcount : items.length < 2 ^ 64)
    (h : ∀ data ∈ items, data.length < 2 ^ 64) :
    Reads skipArray (Value.strings items).payload (lastTail List.length items) () := by
  have hlast := lastTail_strings_le items
  have hstring : stringType < 2 ^ 32 := by decide
  refine (reads_u32 hstring).bind ((reads_u64 hcount).bind ?_ hlast) ?_
  · exact Reads.forRange (fun data _ => length_le_encodeString data)
      (fun data hdata _ => reads_skipString (h data hdata)) ()
  · rw [List.length_append]
    omega

theorem reads_skipValue {v : Value} (h : v.Sized) :
    Reads (skipValue v.code) v.payload v.skipTail () := by
  cases v with
  | scalar t data =>
    simp only [skipValue, Value.code, scalar_code]
    exact reads_seek h
  | string data => exact reads_skipString h
  | scalars t count data => exact reads_skipArray_scalars h.1 h.2
  | strings items => exact reads_skipArray_strings h.1 h.2

theorem reads_readScalar (t : ScalarType) {data : List UInt8} (h : data.length = t.size) :
    Reads (readScalar t.code) data 0 (t.value data) := by
  have hunpack : Reads (unpackScalar t data) [] 0 (t.value data) := by
    unfold unpackScalar
    rw [if_neg (not_not.mpr h)]
    exact Reads.ret _
  have hboth := (reads_read h).bind hunpack (Nat.le_refl 0)
  rw [List.append_nil] at hboth
  unfold readScalar
  rw [scalar_code]
  exact hboth

theorem reads_readScalarValue {v : Value} (h : v.Sized)
    (hstring : ∀ data, v = .string data → data.length ≤ maxString) :
    Reads (readScalarValue v.code) v.payload
      (if v.found.isSome then 0 else v.skipTail) v.found := by
  cases v with
  | scalar t data =>
    simp only [readScalarValue, Value.code, scalar_code, Option.isSome_some, if_true]
    exact (reads_readScalar t h).andThen rfl
  | string data => exact (reads_readString (hstring data rfl)).andThen rfl
  | scalars t count data => exact (reads_skipValue (v := .scalars t count data) h).andThen rfl
  | strings items => exact (reads_skipValue (v := .strings items) h).andThen rfl

theorem tail_le (p : Pair) : p.tail ≤ p.encode.length := by
  have hskip := skipTail_le p.value
  simp only [Pair.tail, Pair.encode, List.length_append]
  split <;> omega

theorem reads_readValue {p : Pair} (h : p.Readable) (wanted : Wanted) :
    Reads (readValue wanted p.name p.value.code) p.value.payload p.tail (p.addTo wanted) := by
  unfold readValue
  cases hof : ofInterest p.name with
  | true =>
    simp only [Pair.tail, Pair.addTo, hof, Bool.true_and, if_true]
    exact (reads_readScalarValue h.sized (h.string hof)).andThen rfl
  | false =>
    simp only [Pair.tail, Pair.addTo, hof, Bool.false_and, Bool.false_eq_true, if_false]
    exact (reads_skipValue h.sized).andThen rfl

theorem reads_readPair {p : Pair} (h : p.Readable) (wanted : Wanted) :
    Reads (readPair wanted) p.encode p.tail (p.addTo wanted) := by
  have hskip := skipTail_le p.value
  have htail : p.tail ≤ p.value.payload.length := by
    simp only [Pair.tail]
    split <;> omega
  refine (reads_readString h.key).bind
    ((reads_u32 (code_lt p.value)).bind (reads_readValue h wanted) htail) ?_
  rw [List.length_append]
  omega

theorem reads_probeBody (py : PyText) (filename : String) {h : Header} (hr : h.Readable) :
    Reads (probeBody py filename) h.encode h.tail (summarize py filename h.wanted) := by
  have hlast : h.tail ≤ (h.pairs.flatMap Pair.encode).length := lastTail_le fun p _ => tail_le p
  have hloop : Reads (forRange readPair h.pairs.length [])
      (h.pairs.flatMap Pair.encode) h.tail h.wanted :=
    Reads.forRange (fun p _ => tail_le p)
      (fun p hp wanted => reads_readPair (hr.pairs p hp) wanted) []
  have hpairs : Reads ((forRange readPair h.pairs.length []).bind fun wanted =>
      Reader.ret (summarize py filename wanted)) (h.pairs.flatMap Pair.encode) h.tail
      (summarize py filename h.wanted) :=
    hloop.andThen rfl
  have hmagic : ggufMagic.length = 4 := rfl
  refine (reads_read hmagic).bind ?_ (by simp only [List.length_append]; omega)
  rw [if_neg (not_not.mpr rfl)]
  refine (reads_u32 hr.version).bind ?_ (by simp only [List.length_append]; omega)
  refine (reads_u64 hr.tensorCount).bind ?_ (by simp only [List.length_append]; omega)
  exact (reads_u64 hr.count).bind hpairs hlast

end Gguf
end InferenceEngine
