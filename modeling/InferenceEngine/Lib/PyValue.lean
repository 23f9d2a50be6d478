import InferenceEngine.Lib.Json

/-!
# Lib.PyValue

What Python does with the values that `json.loads` returns: truth, `dict.get`, `v[0]`, `int(v)` and
`"".join`. An exception is its message. Of floats, and of the strings that `int` takes, only what is
used is assumed: the functions are parameters.
-/

namespace Py

open Json

structure Numbers (F : Type) extends Floats F where
  /-- `x == 0.0` -/
  isZero : F → Bool
  /-- `int(x)` of a finite float -/
  truncate : F → Int
  /-- `int(s)` of a string, or the message of its `ValueError` -/
  intOfStr : Text → Except String Int

variable {F : Type} (num : Numbers F)

def typeName : Value F → String
  | .null => "NoneType"
  | .bool _ => "bool"
  | .int _ => "int"
  | .float _ | .nan | .infinity _ => "float"
  | .str _ => "str"
  | .arr _ => "list"
  | .obj _ => "dict"

/-- `bool(v)`. -/
def truthy : Value F → Bool
  | .null => false
  | .bool b => b
  | .int n => n ≠ 0
  | .float x => !num.isZero x
  | .nan | .infinity _ => true
  | .str s => !s.isEmpty
  | .arr vs => !vs.isEmpty
  | .obj items => !items.isEmpty

/-- `v or w`. -/
def or (v w : Value F) : Value F := if truthy num v then v else w

/-- `v.get(key)`. -/
def get (key : String) : Value F → Except String (Value F)
  | .obj items => .ok ((items.lookup (Text.ofString key)).getD .null)
  | v => .error ("'" ++ typeName v ++ "' object has no attribute 'get'")

/-- `v[0]`. -/
def first : Value F → Except String (Value F)
  | .arr [] => .error "list index out of range"
  | .arr (v :: _) => .ok v
  | .str [] => .error "string index out of range"
  | .str [u] => .ok (.str [u])
  | .str (u :: v :: _) => .ok (.str (if Text.isHigh u && Text.isLow v then [u, v] else [u]))
  -- a `KeyError` of the key 0
  | .obj _ => .error "0"
  | v => .error ("'" ++ typeName v ++ "' object is not subscriptable")

/-- `int(v)`. -/
def toInt : Value F → Except String Int
  | .bool b => .ok (if b then 1 else 0)
  | .int n => .ok n
  | .float x => .ok (num.truncate x)
  | .nan => .error "cannot convert float NaN to integer"
  | .infinity _ => .error "cannot convert float infinity to integer"
  | .str s => num.intOfStr s
  | v => .error ("int() argument must be a string, a bytes-like object or a real number, not '" ++
      typeName v ++ "'")

/-- `"".join(parts)`, from the item with the number `i` on. -/
def join (i : Nat) : List (Value F) → Except String Text
  | [] => .ok []
  | .str s :: parts =>
    match join (i + 1) parts with
    | .ok rest => .ok (s ++ rest)
    | .error e => .error e
  | v :: _ => .error ("sequence item " ++ toString i ++ ": expected str instance, " ++ typeName v ++
      " found")

def isStr : Value F → Bool
  | .str _ => true
  | _ => false

/-- Numbers that are never rounded; of strings, plain digits are integers. -/
def Numbers.exact : Numbers ExactFloat where
  toFloats := Floats.exact
  isZero x := x.1.whole == 0 && x.1.frac.all (· == '0')
  truncate x := if x.1.neg then -x.1.whole else x.1.whole
  intOfStr s :=
    if !s.isEmpty && s.all fun u => 48 ≤ u.val && u.val < 58 then
      .ok (s.foldl (fun n u => 10 * n + (u.val - 48)) 0)
    else .error "invalid literal for int() with base 10"

theorem join_isOk (i : Nat) (parts : List (Value F)) :
    (join i parts).toOption.isSome = parts.all isStr := by
  induction parts generalizing i with
  | nil => rfl
  | cons v parts ih =>
    cases v with
    | str s =>
      rw [join, List.all_cons]
      have ih := ih (i + 1)
      cases hjoin : join (i + 1) parts with
      | ok rest => rw [hjoin] at ih; exact ih
      | error e => rw [hjoin] at ih; exact ih
    | _ => rfl

end Py
