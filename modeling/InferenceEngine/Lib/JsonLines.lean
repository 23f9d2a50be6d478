import InferenceEngine.Lib.Dict
import InferenceEngine.Lib.JsonRoundTrip
import InferenceEngine.Lib.PyStr

/-!
# Lib.JsonLines

JSON lines: a value of any shape is written as one line of printable characters, and read back from
it as it counts, `canon`: of the items with one key the last one stays.

* `loads_write`: what is read from a written value, whatever the order of its keys.
* `printable_write`: what it is written with.
* `splitlines_lines`: lines with a line feed after each are split again.
-/

namespace Json

variable {F : Type}

mutual

/-- The value as it is read back. -/
def Value.canon : Value F → Value F
  | .arr vs => .arr (canonElements vs)
  | .obj items => .obj (dict (canonItems items))
  | v => v

def canonElements : List (Value F) → List (Value F)
  | [] => []
  | v :: vs => v.canon :: canonElements vs

def canonItems : List (Text × Value F) → List (Text × Value F)
  | [] => []
  | (k, v) :: items => (k, v.canon) :: canonItems items

end

variable (fl : Floats F) (sep : Separators)

section Reading

mutual

theorem scans_canon : ∀ v : Value F, Scans fl (write fl sep v) v.canon
  | .null => .literal (by decide) fun rest => rfl
  | .bool true => .literal (by decide) fun rest => rfl
  | .bool false => .literal (by decide) fun rest => rfl
  | .int n => by
    rw [write_int, Value.canon, ← intLit_value fl n]
    · exact .number (intLit_wellFormed n)
    all_goals simp
  | .float x => by
    have h : Scans fl (fl.repr x).text _ := .number (fl.repr_wellFormed x)
    rw [repr_value] at h
    exact h
  | .nan => .literal (by decide) fun rest => rfl
  | .infinity true => .literal (by decide) fun rest => rfl
  | .infinity false => .literal (by decide) fun rest => rfl
  | .str s => .str fun rest => scanString_writeString s rest
  | .arr vs => by
    rw [write_arr]
    exact .arr sep (scans_elements vs)
  | .obj items => by
    rw [write_obj]
    exact .obj sep (scans_items items)

theorem scans_elements : ∀ vs : List (Value F),
    List.Forall₂ (Scans fl) (vs.map (write fl sep)) (canonElements vs)
  | [] => .nil
  | v :: vs => .cons (scans_canon v) (scans_elements vs)

theorem scans_items : ∀ items : List (Text × Value F),
    List.Forall₂ (ScansItem fl) (items.map (itemText fl sep)) (canonItems items)
  | [] => .nil
  | (k, v) :: items =>
    .cons ⟨fun rest => scanString_writeString k rest, scans_canon v⟩ (scans_items items)

end

theorem loads_write (v : Value F) : loads fl (.ofList (write fl sep v)) = some v.canon :=
  (scans_canon fl sep v).loads

theorem get_eq_lookup (items : List (Text × Value F)) (k : Text) :
    Dict.get items k = items.lookup k := by
  induction items with
  | nil => rfl
  | cons p items ih =>
    rw [Dict.get_cons, List.lookup_cons, ih]
    by_cases h : k = p.1
    · rw [if_pos h, beq_iff_eq.mpr h]
    · rw [if_neg h, beq_eq_false_iff_ne.mpr h]

theorem lookup_canonItems (items : List (Text × Value F)) (k : Text) :
    (canonItems items).lookup k = (items.lookup k).map Value.canon := by
  induction items with
  | nil => rfl
  | cons p items ih =>
    obtain ⟨k', v⟩ := p
    rw [canonItems, List.lookup_cons, List.lookup_cons, ih]
    cases k == k' <;> rfl

theorem keys_canonItems (items : List (Text × Value F)) :
    (canonItems items).map Prod.fst = items.map Prod.fst := by
  induction items with
  | nil => rfl
  | cons p items ih => rw [canonItems, List.map_cons, List.map_cons, ih]

/-- An item that is the only one of its key is found again. -/
theorem lookup_dict_canon {items : Dict Text (Value F)} (h : items.keys.Nodup) (k : Text) :
    (dict (canonItems items)).lookup k = (items.get k).map Value.canon := by
  have hkeys : (Dict.keys (canonItems items)).Nodup := by
    rw [Dict.keys, keys_canonItems]
    exact h
  rw [lookup_dict, ← get_eq_lookup, Dict.get_reverse hkeys, get_eq_lookup, get_eq_lookup,
    lookup_canonItems]

end Reading

section Printable

/-- A character of ASCII that is seen or a blank. -/
def Printable (c : Char) : Prop := 0x20 ≤ c.toNat ∧ c.toNat ≤ 0x7e

instance (c : Char) : Decidable (Printable c) := inferInstanceAs (Decidable (_ ∧ _))

theorem printable_digit {c : Char} (h : c.isDigit = true) : Printable c := by
  simp only [Char.isDigit, Bool.and_eq_true, decide_eq_true_eq] at h
  obtain ⟨hlow, hhigh⟩ := h
  have hlow : 48 ≤ c.toNat := hlow
  have hhigh : c.toNat ≤ 57 := hhigh
  exact ⟨by omega, by omega⟩

theorem printable_toDigits (n : Nat) : ∀ c ∈ Nat.toDigits 10 n, Printable c := fun _ hc =>
  printable_digit (Nat.isDigit_of_mem_toDigits (by decide) (by decide) hc)

theorem printable_hexDigit (d : Fin 16) : Printable (hexDigit d) := by
  revert d
  decide

theorem printable_escape (u : CodeUnit) : ∀ c ∈ escape u, Printable c := by
  unfold escape
  split
  · next e he =>
    have hshort : ∀ e ∈ shortEscapes, Printable e.1 := Py.forall_of_all (by decide)
    have hmem := List.mem_of_find?_eq_some he
    simp only [List.mem_cons, List.not_mem_nil, or_false, forall_eq_or_imp, forall_eq]
    exact ⟨by decide, hshort e hmem⟩
  · split
    · next hrange =>
      simp only [List.mem_singleton, forall_eq]
      obtain ⟨hlow, hhigh⟩ := hrange
      have hchar : (Char.ofNat u.val).toNat = u.val := by
        rw [Char.ofNat, dif_pos (.inl (by omega))]
        rfl
      exact ⟨by omega, by omega⟩
    · simp only [hexEscape, List.mem_cons, List.not_mem_nil, or_false, forall_eq_or_imp, forall_eq]
      exact ⟨by decide, by decide, printable_hexDigit _, printable_hexDigit _, printable_hexDigit _,
        printable_hexDigit _⟩

theorem printable_writeString (s : Text) : ∀ c ∈ writeString s, Printable c := by
  intro c hc
  simp only [writeString, List.mem_cons, List.mem_append, List.mem_flatMap,
    List.not_mem_nil, or_false] at hc
  rcases hc with rfl | ⟨u, -, hc⟩ | rfl
  · decide
  · exact printable_escape u c hc
  · decide

theorem printable_text {l : NumLit} (h : l.WellFormed) : ∀ c ∈ l.text, Printable c := by
  have hdigits {ds : List Char} (hds : ∀ c ∈ ds, c.isDigit = true) : ∀ c ∈ ds, Printable c :=
    fun c hc => printable_digit (hds c hc)
  have hsign (neg : Bool) : ∀ c ∈ (if neg then ['-'] else []), Printable c := by
    cases neg <;> exact Py.forall_of_all (by decide)
  have hfrac : ∀ c ∈ (if l.frac.isEmpty then [] else '.' :: l.frac), Printable c := by
    split
    · exact List.forall_mem_nil _
    · exact List.forall_mem_cons.mpr ⟨by decide, hdigits h.frac⟩
  unfold NumLit.text
  refine List.forall_mem_append.mpr ⟨List.forall_mem_append.mpr
    ⟨List.forall_mem_append.mpr ⟨hsign l.neg, printable_toDigits l.whole⟩, hfrac⟩, ?_⟩
  split
  · exact List.forall_mem_nil _
  · next neg ds hexp =>
    refine List.forall_mem_cons.mpr ⟨by decide, List.forall_mem_cons.mpr ⟨?_,
      hdigits (h.exp _ hexp).2⟩⟩
    cases neg <;> decide

theorem printable_separators : (∀ c ∈ sep.item, Printable c) ∧ ∀ c ∈ sep.key, Printable c := by
  cases sep <;> exact ⟨Py.forall_of_all (by decide), Py.forall_of_all (by decide)⟩

mutual

/-- A value is written with printable characters, and so on one line. -/
theorem printable_write : ∀ v : Value F, ∀ c ∈ write fl sep v, Printable c
  | .null => by
    rw [write]
    exact Py.forall_of_all (by decide)
  | .bool true => by
    rw [write]
    exact Py.forall_of_all (by decide)
  | .bool false => by
    rw [write]
    exact Py.forall_of_all (by decide)
  | .int n => by
    rw [write_int]
    exact printable_text (intLit_wellFormed n)
  | .float x => by
    rw [write]
    exact printable_text (fl.repr_wellFormed x)
  | .nan => by
    rw [write]
    exact Py.forall_of_all (by decide)
  | .infinity true => by
    rw [write]
    exact Py.forall_of_all (by decide)
  | .infinity false => by
    rw [write]
    exact Py.forall_of_all (by decide)
  | .str s => by
    rw [write]
    exact printable_writeString s
  | .arr [] => by
    rw [write]
    exact Py.forall_of_all (by decide)
  | .arr (v :: vs) => by
    rw [write]
    exact List.forall_mem_cons.mpr ⟨by decide,
      List.forall_mem_append.mpr ⟨printable_write v, printable_elements vs⟩⟩
  | .obj [] => by
    rw [write]
    exact Py.forall_of_all (by decide)
  | .obj ((k, v) :: items) => by
    rw [write]
    refine List.forall_mem_cons.mpr ⟨by decide, ?_⟩
    simp only [List.forall_mem_append]
    exact ⟨⟨⟨printable_writeString k, (printable_separators sep).2⟩, printable_write v⟩,
      printable_items items⟩

theorem printable_elements : ∀ vs : List (Value F), ∀ c ∈ writeElements fl sep vs, Printable c
  | [] => by
    rw [writeElements]
    exact Py.forall_of_all (by decide)
  | v :: vs => by
    rw [writeElements]
    simp only [List.forall_mem_append]
    exact ⟨⟨(printable_separators sep).1, printable_write v⟩, printable_elements vs⟩

theorem printable_items : ∀ items : List (Text × Value F),
    ∀ c ∈ writeItems fl sep items, Printable c
  | [] => by
    rw [writeItems]
    exact Py.forall_of_all (by decide)
  | (k, v) :: items => by
    rw [writeItems]
    simp only [List.forall_mem_append]
    exact ⟨⟨⟨⟨(printable_separators sep).1, printable_writeString k⟩, (printable_separators sep).2⟩,
      printable_write v⟩, printable_items items⟩

end

end Printable

section Lines

theorem isLineBreak_of_printable {c : Char} (h : Printable c) : Py.isLineBreak c = false := by
  obtain ⟨hlow, hhigh⟩ := h
  simp only [Py.isLineBreak, Bool.or_eq_false_iff, Bool.and_eq_false_iff, decide_eq_false_iff_not,
    beq_eq_false_iff_ne, ne_eq]
  omega

theorem splitlines_lines {lines : List (List Char)} (h : ∀ line ∈ lines, ∀ c ∈ line, Printable c) :
    Py.splitlines (lines.flatMap (· ++ ['\n'])) = lines := by
  induction lines with
  | nil => rfl
  | cons line lines ih =>
    obtain ⟨hline, hlines⟩ := List.forall_mem_cons.mp h
    have hbreak : ∀ c ∈ line, Py.isLineBreak c = false :=
        fun c hc => isLineBreak_of_printable (hline c hc)
    have hreturn : '\r' ∉ line := fun hc => absurd (hbreak _ hc) (by decide)
    rw [List.flatMap_cons, List.append_assoc, List.singleton_append, Py.splitlines_append hreturn,
      ih hlines, List.splitOnP_eq_singleton hbreak]
    rfl

end Lines

end Json
