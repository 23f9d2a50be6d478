import Mathlib.Algebra.Ring.Int.Defs
import InferenceEngine.Lib.ByteReader
import InferenceEngine.Lib.Dict
import InferenceEngine.Lib.PyStr
import InferenceEngine.Lib.Utf8

/-!
# Models.Gguf

The reader of GGUF headers (`models/gguf.py`): the magic, the counts, and the key/value pairs, of
which only a few are read and the rest is passed over with `seek`.

`str` of a float and Unicode's decimal digits are Python's own and are parameters (`PyText`).
-/

namespace InferenceEngine
namespace Gguf

inductive GgufExc where
  | eofError (message : String)
  | valueError (message : String)
  | osError
  | structError
  | keyError (key : Nat)
  deriving DecidableEq

/-- `except (OSError, EOFError, ValueError, struct.error)`. -/
def GgufExc.caught : GgufExc → Bool
  | .eofError _ => true
  | .valueError _ => true
  | .osError => true
  | .structError => true
  | .keyError _ => false

/-- What `str` makes of a float (its IEEE bytes), and `\\d`. -/
structure PyText where
  floatStr : List UInt8 → String
  isDecimal : Char → Bool

/-! ## Value types -/

inductive ScalarType where
  | uint8
  | int8
  | uint16
  | int16
  | uint32
  | int32
  | float32
  | bool
  | uint64
  | int64
  | float64
  deriving DecidableEq

/-- `_STRING`. -/
def stringType : Nat := 8

/-- `_ARRAY`. -/
def arrayType : Nat := 9

/-- `_SCALAR`. -/
def scalar : Nat → Option ScalarType
  | 0 => some .uint8
  | 1 => some .int8
  | 2 => some .uint16
  | 3 => some .int16
  | 4 => some .uint32
  | 5 => some .int32
  | 6 => some .float32
  | 7 => some .bool
  | 10 => some .uint64
  | 11 => some .int64
  | 12 => some .float64
  | _ => none

/-- What a format character makes of the bytes. -/
inductive Kind where
  | unsigned
  | signed
  | bool
  | float

namespace ScalarType

def size : ScalarType → Nat
  | uint8 => 1
  | int8 => 1
  | uint16 => 2
  | int16 => 2
  | uint32 => 4
  | int32 => 4
  | float32 => 4
  | bool => 1
  | uint64 => 8
  | int64 => 8
  | float64 => 8

def kind : ScalarType → Kind
  | uint8 => .unsigned
  | int8 => .signed
  | uint16 => .unsigned
  | int16 => .signed
  | uint32 => .unsigned
  | int32 => .signed
  | float32 => .float
  | bool => .bool
  | uint64 => .unsigned
  | int64 => .signed
  | float64 => .float

end ScalarType

inductive MetaValue where
  | int (z : Int)
  | bool (b : Bool)
  | float (ieee : List UInt8)
  | str (s : String)
  deriving DecidableEq

/-- Two's complement in `size` bytes. -/
def toSigned (size n : Nat) : Int := if 2 * n < 256 ^ size then n else n - 256 ^ size

/-- What `struct.unpack` makes of bytes of the right number. -/
def ScalarType.value (t : ScalarType) (data : List UInt8) : MetaValue :=
  match t.kind with
  | .unsigned => .int (LittleEndian.decode data)
  | .signed => .int (toSigned t.size (LittleEndian.decode data))
  | .bool => .bool (LittleEndian.decode data ≠ 0)
  | .float => .float data

/-- `str(value)`. -/
def MetaValue.toStr (py : PyText) : MetaValue → String
  | .int z => toString z
  | .bool b => if b then "True" else "False"
  | .float ieee => py.floatStr ieee
  | .str s => s

/-- `int(value) if isinstance(value, int) else None`: a `bool` is an `int`. -/
def MetaValue.asInt : MetaValue → Option Int
  | .int z => some z
  | .bool b => some (if b then 1 else 0)
  | .float _ => none
  | .str _ => none

/-! ## Quantisation -/

/-- `_FTYPE_QUANT`. -/
def ftypeQuant : Dict Int String :=
  [(0, "F32"), (1, "F16"), (2, "Q4_0"), (3, "Q4_1"), (7, "Q8_0"), (8, "Q5_0"), (9, "Q5_1"),
    (10, "Q2_K"), (11, "Q3_K_S"), (12, "Q3_K_M"), (13, "Q3_K_L"), (14, "Q4_K_S"), (15, "Q4_K_M"),
    (16, "Q5_K_S"), (17, "Q5_K_M"), (18, "Q6_K"), (19, "IQ2_XXS"), (20, "IQ2_XS"), (23, "IQ3_XXS")]

/-- `[0-9A-Za-z]` under `re.IGNORECASE`, with the four letters outside ASCII that it matches. -/
def isAlnum (c : Char) : Bool :=
  c.isAlphanum || c.toNat = 0x130 || c.toNat = 0x131 || c.toNat = 0x17F || c.toNat = 0x212A

/-- The length of `(?:_[0-9A-Za-z]+)*`; `inWord` when a letter or a digit may come. -/
def groups (inWord : Bool) : List Char → Nat
  | [] => 0
  | c :: cs =>
    if inWord && isAlnum c then 1 + groups true cs
    else if c = '_' && cs.head?.any isAlnum then 1 + groups true cs
    else 0

/-- The length of `\\d+(?:_[0-9A-Za-z]+)*`. -/
def digitsAndGroups (py : PyText) (cs : List Char) : Option Nat :=
  let digits := (cs.takeWhile py.isDecimal).length
  if digits = 0 then none else some (digits + groups false (cs.drop digits))

/-- The length of the match of `_QUANT_FROM_NAME` that begins here. -/
def matchQuant (py : PyText) (cs : List Char) : Option Nat :=
  if Py.beginsIgnoreCase ['I', 'Q'] cs && (digitsAndGroups py (cs.drop 2)).isSome then
    (digitsAndGroups py (cs.drop 2)).map (2 + ·)
  else if Py.beginsIgnoreCase ['Q'] cs && (digitsAndGroups py (cs.drop 1)).isSome then
    (digitsAndGroups py (cs.drop 1)).map (1 + ·)
  else if Py.beginsIgnoreCase ['B', 'F', '1', '6'] cs then some 4
  else if Py.beginsIgnoreCase ['F', '1', '6'] cs then some 3
  else if Py.beginsIgnoreCase ['F', '3', '2'] cs then some 3
  else none

/-- `findall`, with the characters that belong to the last match. -/
def findQuants (py : PyText) (skip : Nat) : List Char → List (List Char)
  | [] => []
  | c :: cs =>
    if 0 < skip then findQuants py (skip - 1) cs
    else
      match matchQuant py (c :: cs) with
      | some n => (c :: cs).take n :: findQuants py (n - 1) cs
      | none => findQuants py 0 cs

/-- `str.upper` of a character of a match. -/
def upperChar (c : Char) : Char :=
  if c.toNat = 0x131 then 'I' else if c.toNat = 0x17F then 'S' else c.toUpper

/-- `quant_from_filename`. -/
def quantFromFilename (py : PyText) (filename : String) : Option String :=
  (findQuants py 0 filename.toList).getLast?.map fun m => String.ofList (m.map upperChar)

/-! ## The reader -/

abbrev GgufReader := Reader GgufExc

/-- `_read`. -/
def read (n : Nat) : GgufReader (List UInt8) := do
  let data ← Reader.read n
  if data.length ≠ n then Reader.raise (.eofError "unexpected end of GGUF header") else pure data

/-- `struct.unpack` of an unsigned number of `size` bytes. -/
def unpackNat (size : Nat) (data : List UInt8) : GgufReader Nat :=
  if data.length ≠ size then Reader.raise .structError else pure (LittleEndian.decode data)

/-- `struct.unpack("<Q", _read(fh, 8))`, and the same for `"<I"` and 4. -/
def readNat (size : Nat) : GgufReader Nat := do
  let data ← read size
  unpackNat size data

/-- `struct.unpack` of a scalar. -/
def unpackScalar (t : ScalarType) (data : List UInt8) : GgufReader MetaValue :=
  if data.length ≠ t.size then Reader.raise .structError else pure (t.value data)

/-- `_read_scalar`. -/
def readScalar (vtype : Nat) : GgufReader MetaValue :=
  match scalar vtype with
  | none => Reader.raise (.keyError vtype)
  | some t => do
    let data ← read t.size
    unpackScalar t data

/-- The guard of `_read_string`. -/
def maxString : Nat := 64 * 1024 * 1024

/-- `_read_string`. -/
def readString : GgufReader String := do
  let length ← readNat 8
  if maxString < length then Reader.raise (.valueError "implausible GGUF string length")
  else do
    let data ← read length
    pure (String.ofList (Utf8.decode data))

/-- `fh.seek(n, 1)`. -/
def seek (n : Nat) : GgufReader Unit :=
  Reader.seek n (if 2 ^ 63 ≤
    n then .valueError "cannot fit 'int' into an offset-sized integer" else .osError)

/-- The part that `_skip_value` and `_skip_array` have in common. -/
def skipString : GgufReader Unit := do
  let length ← readNat 8
  seek length

/-- The elements of an array. -/
def skipElements (elemType count : Nat) : GgufReader Unit :=
  match scalar elemType with
  | some t => seek (t.size * count)
  | none =>
    if elemType = stringType then Reader.forRange (fun _ => skipString) count ()
    else Reader.raise (.valueError ("unsupported GGUF array element type " ++ toString elemType))

/-- `_skip_array`. -/
def skipArray : GgufReader Unit := do
  let elemType ← readNat 4
  let count ← readNat 8
  skipElements elemType count

/-- `_skip_value`. -/
def skipValue (vtype : Nat) : GgufReader Unit :=
  match scalar vtype with
  | some t => seek t.size
  | none =>
    if vtype = stringType then skipString
    else if vtype = arrayType then skipArray
    else Reader.raise (.valueError ("unknown GGUF value type " ++ toString vtype))

/-- `_read_scalar_value`. -/
def readScalarValue (vtype : Nat) : GgufReader (Option MetaValue) :=
  if (scalar vtype).isSome then do
    let value ← readScalar vtype
    pure (some value)
  else if vtype = stringType then do
    let s ← readString
    pure (some (.str s))
  else do
    skipValue vtype
    pure none

/-! ## Probing -/

def endsWith (s suffix : String) : Bool := suffix.toList.isSuffixOf s.toList

/-- `key in keys_of_interest or key.endswith(".context_length")`. -/
def ofInterest (key : String) : Bool :=
  ["general.architecture", "general.name", "general.file_type"].contains key ||
    endsWith key ".context_length"

abbrev Wanted := Dict String MetaValue

/-- `if value is not None: wanted[key] = value`. -/
def keepValue (wanted : Wanted) (key : String) : Option MetaValue → Wanted
  | some v => wanted.set key v
  | none => wanted

/-- The value of a pair: read when its key is of interest, passed over otherwise. -/
def readValue (wanted : Wanted) (key : String) (vtype : Nat) : GgufReader Wanted :=
  if ofInterest key then do
    let value ← readScalarValue vtype
    pure (keepValue wanted key value)
  else do
    skipValue vtype
    pure wanted

/-- One pass of the loop over the pairs. -/
def readPair (wanted : Wanted) : GgufReader Wanted := do
  let key ← readString
  let vtype ← readNat 4
  readValue wanted key vtype

structure GgufInfo where
  valid : Bool
  arch : Option String := none
  name : Option String := none
  quant : Option String := none
  contextLength : Option Int := none
  deriving DecidableEq

/-- The value that `context_length` is taken from; an empty architecture names no key. -/
def contextValue (arch : Option String) (wanted : Wanted) : Option MetaValue :=
  let named :=
    match arch with
    | some a => if a ≠ "" then wanted.get (a ++ ".context_length") else none
    | none => none
  match named with
  | some v => some v
  | none => (wanted.find? fun e => endsWith e.1 ".context_length").map (·.2)

/-- What `probe` makes of the pairs it wanted. -/
def summarize (py : PyText) (filename : String) (wanted : Wanted) : GgufInfo :=
  let arch := (wanted.get "general.architecture").map (·.toStr py)
  let quant := ((wanted.get "general.file_type").bind MetaValue.asInt).bind ftypeQuant.get
  { valid := true
    arch := arch
    name := (wanted.get "general.name").map (·.toStr py)
    quant := match quant with
      | some q => some q
      | none => quantFromFilename py filename
    contextLength := (contextValue arch wanted).bind MetaValue.asInt }

/-- `GGUF_MAGIC`. -/
def ggufMagic : List UInt8 := [0x47, 0x47, 0x55, 0x46]

/-- The body of the `try`. -/
def probeBody (py : PyText) (filename : String) : GgufReader GgufInfo := do
  let magic ← read 4
  if magic ≠ ggufMagic then pure { valid := false }
  else do
    let _version ← readNat 4
    let _tensorCount ← readNat 8
    let kvCount ← readNat 8
    let wanted ← Reader.forRange readPair kvCount []
    pure (summarize py filename wanted)

/-- `probe` of a file that can be opened, with the cursor it leaves; `filename` is the last part of
its path. -/
def probe (py : PyText) (filename : String) (f : ByteFile) : Except GgufExc GgufInfo × Cursor :=
  match probeBody py filename f {} with
  | (.ok info, c) => (.ok info, c)
  | (.error e, c) => if e.caught then (.ok { valid := false }, c) else (.error e, c)

end Gguf
end InferenceEngine
