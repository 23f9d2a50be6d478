import InferenceEngine.Lib.JsonRoundTrip

/-!
# Lib.JsonIndent

`json.dumps(items, indent=2)` of a dict whose values are strings or booleans: one item on each line.
The items stand in the order of the dict, and the separator before a line is a plain comma.

`loads_indentText`: the items are loaded from the text.
-/

namespace Json

variable {F : Type} {fl : Floats F}

/-- The start of a line within the braces. -/
def newline : List Char := ['\n', ' ', ' ']

/-- The lines after the first item, the last one with the brace. -/
def linesText : List (List Char × List Char) → List Char
  | [] => ['\n', '}']
  | (key, text) :: items =>
    ',' :: (newline ++ '"' :: (key ++ '"' :: ':' :: ' ' :: (text ++ linesText items)))

/-- What stands within the quotes of the keys, and the texts of the values. -/
def indentText : List (List Char × List Char) → List Char
  | [] => ['{', '}']
  | (key, text) :: items =>
    '{' :: (newline ++ '"' :: (key ++ '"' :: ':' :: ' ' :: (text ++ linesText items)))

/-- The value is read from its text whatever follows. This is so of all values but numbers. -/
structure Reads (fl : Floats F) (text : List Char) (v : Value F) : Prop where
  head : ∃ c cs, text = c :: cs ∧ isSpace c = false
  scan : ∀ (n : Nat) (rest : List Char), scanValue fl (n + 1) (text ++ rest) = some (v, rest)

theorem Reads.skip {text : List Char} {v : Value F} (h : Reads fl text v) (rest : List Char) :
    Json.skip (text ++ rest) = text ++ rest := by
  obtain ⟨c, cs, htext, hs⟩ := h.head
  rw [htext, List.cons_append, skip_cons _ hs]

theorem reads_writeString (s : Text) : Reads fl (writeString s) (.str s) := by
  refine ⟨⟨_, _, rfl, by decide⟩, fun n rest => ?_⟩
  have htext : writeString s ++ rest = '"' :: (s.flatMap escape ++ '"' :: rest) := by
    simp [writeString]
  rw [htext, scanValue, if_pos rfl, scanString_writeString, Option.map_some]

theorem reads_bool (sep : Separators) (b : Bool) : Reads fl (write fl sep (.bool b)) (.bool b) := by
  cases b with
  | false => exact ⟨⟨_, _, by rw [write], by decide⟩, fun n rest => by rw [write]; rfl⟩
  | true => exact ⟨⟨_, _, by rw [write], by decide⟩, fun n rest => by rw [write]; rfl⟩

def ReadsItem (fl : Floats F) (texts : List Char × List Char) (p : Text × Value F) : Prop :=
  Quotes texts.1 p.1 ∧ Reads fl texts.2 p.2

theorem scanItems_line {texts : List Char × List Char} {p : Text × Value F}
    (h : ReadsItem fl texts p) (n : Nat) (rest : List Char) :
    scanItems fl (n + 2) ('"' :: (texts.1 ++ '"' :: ':' :: ' ' :: (texts.2 ++ rest))) =
      match Json.skip rest with
      | '}' :: rest => some ([p], rest)
      | ',' :: rest =>
        (scanItems fl (n + 1) (Json.skip rest)).map fun (items, rest) => (p :: items, rest)
      | _ => none := by
  have hspace : Json.skip (' ' :: (texts.2 ++ rest)) = texts.2 ++ rest := h.2.skip rest
  rw [scanItems, h.1]
  simp only [Option.bind_eq_bind, Option.bind_some,
    skip_cons _ (show isSpace ':' = false by decide), hspace, h.2.scan n rest, Option.map_eq_bind]
  rfl

theorem scanItems_lines {texts : List (List Char × List Char)} {items : List (Text × Value F)}
    (hi : List.Forall₂ (ReadsItem fl) texts items) :
    ∀ {t : List Char × List Char} {p : Text × Value F}, ReadsItem fl t p →
      ∀ (n : Nat) (rest : List Char),
      scanItems fl (n + texts.length + 2)
          ('"' :: (t.1 ++ '"' :: ':' :: ' ' :: (t.2 ++ (linesText texts ++ rest)))) =
        some (p :: items, rest) := by
  induction hi with
  | nil =>
    intro t p hp n rest
    rw [List.length_nil, Nat.add_zero, scanItems_line hp]
    rfl
  | @cons t' p' texts items hp' hi ih =>
    intro t p hp n rest
    have hskip : Json.skip (newline ++ '"' :: (t'.1 ++ '"' :: ':' :: ' ' ::
        (t'.2 ++ (linesText texts ++ rest)))) =
          '"' :: (t'.1 ++ '"' :: ':' :: ' ' :: (t'.2 ++ (linesText texts ++ rest))) := rfl
    have htext : linesText (t' :: texts) ++ rest =
        ',' :: (newline ++ '"' :: (t'.1 ++ '"' :: ':' :: ' ' ::
        (t'.2 ++ (linesText texts ++ rest)))) := by
      simp only [linesText, List.append_assoc, List.cons_append]
    rw [List.length_cons, ← Nat.add_assoc, scanItems_line hp, htext,
      skip_cons _ (show isSpace ',' = false by decide)]
    simp only [hskip]
    rw [ih hp' n rest, Option.map_some]

theorem length_linesText (texts : List (List Char × List Char)) :
    texts.length ≤ (linesText texts).length := by
  induction texts with
  | nil => exact Nat.zero_le _
  | cons t texts ih =>
    simp only [linesText, List.length_cons, List.length_append]
    omega

theorem loads_indentText {texts : List (List Char × List Char)} {items : List (Text × Value F)}
    (h : List.Forall₂ (ReadsItem fl) texts items) :
    loads fl (.ofList (indentText texts)) = some (.obj (dict items)) := by
  cases h with
  | nil => rfl
  | @cons t p texts items hp hi =>
    have hlen := length_linesText texts
    obtain ⟨n, hn⟩ : ∃ n, 2 * (indentText (t :: texts)).length + 2 = n + texts.length + 2 + 1 := by
      refine ⟨2 * (indentText (t :: texts)).length - texts.length - 1, ?_⟩
      simp only [indentText, List.length_cons, List.length_append]
      omega
    have hitems := scanItems_lines hi hp n []
    rw [List.append_nil] at hitems
    have htext : indentText (t :: texts) = '{' :: (newline ++ '"' :: (t.1 ++ '"' :: ':' :: ' ' ::
        (t.2 ++ linesText texts))) := rfl
    have hscan : scanValue fl (2 * (indentText (t :: texts)).length + 2) (indentText (t :: texts)) =
        some (.obj (dict (p :: items)), []) := by
      rw [hn, htext, scanValue, if_neg (by decide), if_neg (by decide), if_pos rfl]
      have hskip : Json.skip (newline ++ '"' ::
          (t.1 ++ '"' :: ':' :: ' ' :: (t.2 ++ linesText texts))) =
          '"' :: (t.1 ++ '"' :: ':' :: ' ' :: (t.2 ++ linesText texts)) := rfl
      rw [hskip]
      split
      · rename_i heq
        exact absurd (List.cons.inj heq).1 (by decide)
      · rw [hitems, Option.map_some]
    unfold Json.loads
    rw [String.toList_ofList, htext,
      skip_cons _ (show isSpace '{' = false by decide), ← htext, hscan]
    rfl

end Json
