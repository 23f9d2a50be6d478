import Mathlib.Data.List.Basic
import Mathlib.Data.Fin.Basic

/-!
# Lib.Json

JSON values and texts as Python's `json` module reads and writes them.

A Python string is a sequence of code points, surrogates included. One in which no high surrogate
stands directly before a low one is the same as a sequence of UTF-16 code units, and these are the
strings of UTF-8 texts and of everything `loads` returns (it joins escaped pairs): `Text`. Keys are
compared as Python compares strings, by code points.

An object is the list of its items in the order of the keys: two dicts are equal whatever the order
of their items. `dumps` writes with `sort_keys=True` and the default `ensure_ascii=True`, `loads` is
strict (the default), and the last of several items with one key counts. Python's limits on the
depth of a text and on the digits of an integer are left out. Floats are a parameter: the finite
ones are a type with `float(·)` and `repr`, of which the documented `float(repr(x)) == x` is used.
-/

namespace Json

/-- A UTF-16 code unit. -/
abbrev CodeUnit := Fin 65536

abbrev Text := List CodeUnit

namespace Text

def isHigh (u : CodeUnit) : Bool := 0xD800 ≤ u.val && u.val < 0xDC00

def isLow (u : CodeUnit) : Bool := 0xDC00 ≤ u.val && u.val < 0xE000

/-- The code point of a surrogate pair. -/
def join (hi lo : CodeUnit) : Nat := 0x10000 + (hi.val - 0xD800) * 0x400 + (lo.val - 0xDC00)

def codePoints : Text → List Nat
  | [] => []
  | [u] => [u.val]
  | u :: v :: us =>
    if isHigh u && isLow v then join u v :: codePoints us else u.val :: codePoints (v :: us)

/-- `a < b` of Python strings. -/
def lt (a b : Text) : Prop := a.codePoints < b.codePoints

instance : DecidableRel lt := fun a b => inferInstanceAs (Decidable (a.codePoints < b.codePoints))

/-- The code units of a code point. -/
def encode (c : Nat) : Text :=
  if c < 0x10000 then [Fin.ofNat 65536 c]
  else [Fin.ofNat 65536 (0xD800 + (c - 0x10000) / 0x400),
    Fin.ofNat 65536 (0xDC00 + (c - 0x10000) % 0x400)]

def ofString (s : String) : Text := s.toList.flatMap fun c => encode c.toNat

end Text

/-- A number as it is written. The fraction is empty when there is no point; an exponent has its
sign and its digits. -/
structure NumLit where
  neg : Bool
  whole : Nat
  frac : List Char
  exp : Option (Bool × List Char)
  deriving DecidableEq, Repr

namespace NumLit

/-- Is it read as a float, and not as an integer? -/
def isFloat (l : NumLit) : Bool := !l.frac.isEmpty || l.exp.isSome

structure WellFormed (l : NumLit) : Prop where
  frac : ∀ c ∈ l.frac, c.isDigit
  exp : ∀ e ∈ l.exp, e.2 ≠ [] ∧ ∀ c ∈ e.2, c.isDigit

theorem wellFormed_iff (l : NumLit) :
    (l.frac.all (·.isDigit) && l.exp.all fun e => !e.2.isEmpty && e.2.all (·.isDigit)) = true ↔
      l.WellFormed := by
  rw [Bool.and_eq_true, List.all_eq_true, Option.all_eq_true]
  constructor
  · rintro ⟨hfrac, hexp⟩
    exact ⟨hfrac, fun e he => by simpa using hexp e he⟩
  · rintro ⟨hfrac, hexp⟩
    exact ⟨hfrac, fun e he => by simpa using hexp e he⟩

instance : DecidablePred WellFormed := fun l => decidable_of_iff _ (wellFormed_iff l)

def text (l : NumLit) : List Char :=
  (if l.neg then ['-'] else []) ++ Nat.toDigits 10 l.whole ++
    (if l.frac.isEmpty then [] else '.' :: l.frac) ++
    (match l.exp with
      | none => []
      | some (neg, ds) => 'e' :: (if neg then '-' else '+') :: ds)

end NumLit

/-- The finite floats. A literal that is too large to be one is read as an infinity. -/
structure Floats (F : Type) where
  read : NumLit → Option F
  repr : F → NumLit
  repr_isFloat : ∀ x, (repr x).isFloat = true
  repr_wellFormed : ∀ x, (repr x).WellFormed
  read_repr : ∀ x, read (repr x) = some x

/-- Floats that are never rounded: every literal is one of its own. -/
abbrev ExactFloat := {l : NumLit // l.isFloat = true ∧ l.WellFormed}

def Floats.exact : Floats ExactFloat where
  read l := if h : l.isFloat = true ∧ l.WellFormed then some ⟨l, h⟩ else none
  repr := Subtype.val
  repr_isFloat x := x.2.1
  repr_wellFormed x := x.2.2
  read_repr x := dif_pos x.2

inductive Value (F : Type) where
  | null
  | bool (b : Bool)
  | int (n : Int)
  | float (x : F)
  | nan
  | infinity (neg : Bool)
  | str (s : Text)
  | arr (vs : List (Value F))
  | obj (items : List (Text × Value F))

variable {F : Type}

/-- The keys of every object ascend. -/
inductive Value.Sorted : Value F → Prop where
  | null : Sorted .null
  | bool (b : Bool) : Sorted (.bool b)
  | int (n : Int) : Sorted (.int n)
  | float (x : F) : Sorted (.float x)
  | nan : Sorted .nan
  | infinity (neg : Bool) : Sorted (.infinity neg)
  | str (s : Text) : Sorted (.str s)
  | arr {vs : List (Value F)} (h : ∀ v ∈ vs, Sorted v) : Sorted (.arr vs)
  | obj {items : List (Text × Value F)} (hk : (items.map Prod.fst).Pairwise Text.lt)
      (h : ∀ p ∈ items, Sorted p.2) : Sorted (.obj items)

/-- `separators`: `(",", ":")` or the default `(", ", ": ")`. -/
inductive Separators where
  | compact
  | spaced
  deriving DecidableEq, Repr

namespace Separators

/-- What stands after a comma or a colon. -/
def space : Separators → List Char
  | compact => []
  | spaced => [' ']

def item (sep : Separators) : List Char := ',' :: sep.space

def key (sep : Separators) : List Char := ':' :: sep.space

end Separators

/-! ## Writing -/

def hexDigit (d : Fin 16) : Char := Nat.digitChar d.val

/-- `\u%04x` -/
def hexEscape (u : CodeUnit) : List Char :=
  ['\\', 'u', hexDigit (Fin.ofNat 16 (u.val / 4096)), hexDigit (Fin.ofNat 16 (u.val / 256)),
    hexDigit (Fin.ofNat 16 (u.val / 16)), hexDigit (Fin.ofNat 16 u.val)]

/-- The two-character escapes, by the character after the backslash. -/
def shortEscapes : List (Char × CodeUnit) :=
  [('"', 0x22), ('\\', 0x5c), ('b', 0x08), ('f', 0x0c), ('n', 0x0a), ('r', 0x0d), ('t', 0x09)]

/-- One code unit within the quotes. -/
def escape (u : CodeUnit) : List Char :=
  match shortEscapes.find? fun e => e.2 = u with
  | some e => ['\\', e.1]
  | none => if 0x20 ≤ u.val ∧ u.val ≤ 0x7e then [Char.ofNat u.val] else hexEscape u

def writeString (s : Text) : List Char := '"' :: (s.flatMap escape ++ ['"'])

mutual

def write (fl : Floats F) (sep : Separators) : Value F → List Char
  | .null => ['n', 'u', 'l', 'l']
  | .bool true => ['t', 'r', 'u', 'e']
  | .bool false => ['f', 'a', 'l', 's', 'e']
  | .int n => (if n < 0 then ['-'] else []) ++ Nat.toDigits 10 n.natAbs
  | .float x => (fl.repr x).text
  | .nan => ['N', 'a', 'N']
  | .infinity false => ['I', 'n', 'f', 'i', 'n', 'i', 't', 'y']
  | .infinity true => ['-', 'I', 'n', 'f', 'i', 'n', 'i', 't', 'y']
  | .str s => writeString s
  | .arr [] => ['[', ']']
  | .arr (v :: vs) => '[' :: (write fl sep v ++ writeElements fl sep vs)
  | .obj [] => ['{', '}']
  | .obj ((k, v) :: items) =>
    '{' :: (writeString k ++ sep.key ++ write fl sep v ++ writeItems fl sep items)

/-- The elements after the first one, and the bracket. -/
def writeElements (fl : Floats F) (sep : Separators) : List (Value F) → List Char
  | [] => [']']
  | v :: vs => sep.item ++ write fl sep v ++ writeElements fl sep vs

def writeItems (fl : Floats F) (sep : Separators) : List (Text × Value F) → List Char
  | [] => ['}']
  | (k, v) :: items =>
    sep.item ++ writeString k ++ sep.key ++ write fl sep v ++ writeItems fl sep items

end

/-- `json.dumps(v, sort_keys=True)` -/
def dumps (fl : Floats F) (sep : Separators) (v : Value F) : String := .ofList (write fl sep v)

/-! ## Reading -/

def isSpace (c : Char) : Bool := c = ' ' || c = '\t' || c = '\n' || c = '\r'

def skip (cs : List Char) : List Char := cs.dropWhile isSpace

def hexValue (c : Char) : Option Nat :=
  if c.isDigit then some (c.toNat - 48)
  else if 'a' ≤ c ∧ c ≤ 'f' then some (c.toNat - 87)
  else if 'A' ≤ c ∧ c ≤ 'F' then some (c.toNat - 55)
  else none

def hex4 (a b c d : Char) : Option CodeUnit := do
  let a ← hexValue a
  let b ← hexValue b
  let c ← hexValue c
  let d ← hexValue d
  pure (Fin.ofNat 65536 (a * 4096 + b * 256 + c * 16 + d))

/-- A string after its opening quote. -/
def scanString : List Char → Option (Text × List Char)
  | [] => none
  | c :: cs =>
    if c = '"' then some ([], cs)
    else if c = '\\' then
      match cs with
      | 'u' :: a :: b :: d :: e :: rest => do
        let u ← hex4 a b d e
        let (s, rest) ← scanString rest
        pure (u :: s, rest)
      | x :: rest => do
        let e ← (('/', 0x2f) :: shortEscapes).find? fun e => e.1 = x
        let (s, rest) ← scanString rest
        pure (e.2 :: s, rest)
      | [] => none
    -- strict: no control character within a string
    else if c.toNat < 0x20 then none
    else (scanString cs).map fun (s, rest) => (Text.encode c.toNat ++ s, rest)

def scanWhole : List Char → Option (Nat × List Char)
  | [] => none
  | c :: cs =>
    if c = '0' then some (0, cs)
    else if c.isDigit then
      some (Nat.ofDigitChars 10 (c :: cs.takeWhile Char.isDigit) 0, cs.dropWhile Char.isDigit)
    else none

/-- A point that no digit follows is not part of the number. -/
def scanFraction : List Char → List Char × List Char
  | '.' :: cs =>
    if (cs.takeWhile Char.isDigit).isEmpty then ([], '.' :: cs)
    else (cs.takeWhile Char.isDigit, cs.dropWhile Char.isDigit)
  | cs => ([], cs)

def scanSign : List Char → Bool × List Char
  | '-' :: cs => (true, cs)
  | '+' :: cs => (false, cs)
  | cs => (false, cs)

def scanExponent : List Char → Option (Bool × List Char) × List Char
  | [] => (none, [])
  | c :: cs =>
    if c = 'e' ∨ c = 'E' then
      let (neg, ds) := scanSign cs
      if (ds.takeWhile Char.isDigit).isEmpty then (none, c :: cs)
      else (some (neg, ds.takeWhile Char.isDigit), ds.dropWhile Char.isDigit)
    else (none, c :: cs)

def NumLit.value (fl : Floats F) (l : NumLit) : Value F :=
  if l.isFloat then
    match fl.read l with
    | some x => .float x
    | none => .infinity l.neg
  else .int (if l.neg then -l.whole else l.whole)

def scanMinus : List Char → Bool × List Char
  | '-' :: cs => (true, cs)
  | cs => (false, cs)

def scanNumber (fl : Floats F) (cs : List Char) : Option (Value F × List Char) := do
  let (neg, cs) := scanMinus cs
  let (whole, cs) ← scanWhole cs
  let (frac, cs) := scanFraction cs
  let (exp, cs) := scanExponent cs
  pure ((NumLit.mk neg whole frac exp).value fl, cs)

def literals : List (List Char × Value F) :=
  [(['n', 'u', 'l', 'l'], .null), (['t', 'r', 'u', 'e'], .bool true),
    (['f', 'a', 'l', 's', 'e'], .bool false), (['N', 'a', 'N'], .nan),
    (['I', 'n', 'f', 'i', 'n', 'i', 't', 'y'], .infinity false),
    (['-', 'I', 'n', 'f', 'i', 'n', 'i', 't', 'y'], .infinity true)]

def scanLiteral (cs : List Char) : Option (Value F × List Char) :=
  literals.findSome? fun (t, v) => (t.isPrefixOf? cs).map fun rest => (v, rest)

def insertItem (k : Text) (v : Value F) : List (Text × Value F) → List (Text × Value F)
  | [] => [(k, v)]
  | (k', v') :: items =>
    if k = k' then (k, v) :: items
    else if k.lt k' then (k, v) :: (k', v') :: items
    else (k', v') :: insertItem k v items

/-- `dict(pairs)` -/
def dict (pairs : List (Text × Value F)) : List (Text × Value F) :=
  pairs.foldl (fun items p => insertItem p.1 p.2 items) []

mutual

/-- `scan_once` -/
def scanValue (fl : Floats F) : Nat → List Char → Option (Value F × List Char)
  | 0, _ => none
  | _ + 1, [] => none
  | n + 1, c :: cs =>
    if c = '"' then (scanString cs).map fun (s, rest) => (.str s, rest)
    else if c = '[' then
      match skip cs with
      | ']' :: rest => some (.arr [], rest)
      | cs => (scanElements fl n cs).map fun (vs, rest) => (.arr vs, rest)
    else if c = '{' then
      match skip cs with
      | '}' :: rest => some (.obj [], rest)
      | cs => (scanItems fl n cs).map fun (pairs, rest) => (.obj (dict pairs), rest)
    else (scanLiteral (c :: cs)).or (scanNumber fl (c :: cs))

def scanElements (fl : Floats F) : Nat → List Char → Option (List (Value F) × List Char)
  | 0, _ => none
  | n + 1, cs => do
    let (v, cs) ← scanValue fl n cs
    match skip cs with
    | ']' :: rest => pure ([v], rest)
    | ',' :: rest =>
      let (vs, rest) ← scanElements fl n (skip rest)
      pure (v :: vs, rest)
    | _ => none

def scanItems (fl : Floats F) : Nat → List Char → Option (List (Text × Value F) × List Char)
  | 0, _ => none
  | n + 1, '"' :: cs => do
    let (k, cs) ← scanString cs
    match skip cs with
    | ':' :: cs =>
      let (v, cs) ← scanValue fl n (skip cs)
      match skip cs with
      | '}' :: rest => pure ([(k, v)], rest)
      | ',' :: rest =>
        let (items, rest) ← scanItems fl n (skip rest)
        pure ((k, v) :: items, rest)
      | _ => none
    | _ => none
  | _ + 1, _ => none

end

/-- `json.loads`; a text that is no JSON makes it raise. The fuel is enough for every text
(`loads_of_scan`). -/
def loads (fl : Floats F) (text : String) : Option (Value F) :=
  match scanValue fl (2 * text.toList.length + 2) (skip text.toList) with
  | some (v, rest) => if skip rest = [] then some v else none
  | none => none

end Json
