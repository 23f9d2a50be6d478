import InferenceEngine.Lib.PySub
import InferenceEngine.Lib.PyStr

/-!
# Telemetry.LogRedaction

`redact_secrets`: in a log text, the value of a query parameter with the name of a credential is
masked.

* `redact_masked`: in what is left, every credential is the mask, and redacting it again changes
  nothing.
* `redact_veiled`: texts that differ in the values of credentials alone are redacted to one text.
-/

namespace InferenceEngine
namespace LogRedaction

variable {c d sep : Char} {a b cs name value w q before : List Char}

def mask : List Char := ['*', '*', '*']

/-- The names in `_SECRET_QUERY`, in the order in which they are tried. -/
def names : List (List Char) :=
  ["API_KEY", "APIKEY", "TOKEN", "ACCESS_TOKEN", "KEY", "SECRET", "PASSWORD"].map String.toList

/-- `[^&\s"']`. -/
def valueChar (c : Char) : Bool := !(c ∈ ['&', '"', '\''] || Py.isSpace c)

/-- `(?:api_key|..)=`: the name at the start of a text, before the sign. -/
def named (cs : List Char) : Option (List Char) :=
  (names.find? fun n => Py.beginsIgnoreCase (n ++ ['=']) cs).map fun n => cs.take n.length

/-- `[?&]`. -/
abbrev IsSep (c : Char) : Prop := c = '?' ∨ c = '&'

/-- `_SECRET_QUERY`, with `\1***` for what it matches. -/
def secretQuery : Py.Pattern Char := fun _ cs =>
  match cs with
  | [] => none
  | sep :: cs =>
    if IsSep sep then
      match named cs with
      | some name =>
        let value := (cs.drop (name.length + 1)).takeWhile valueChar
        if value ≠ [] then some (name.length + 2 + value.length, sep :: name ++ '=' :: mask)
          else none
      | none => none
    else none

/-- `redact_secrets`. -/
def redactSecrets (text : List Char) : List Char := Py.sub secretQuery text

/-- A text is the name of a credential, in letters of any case. -/
def isName (name : List Char) : Bool :=
  names.any fun n => decide (n.length = name.length) && Py.beginsIgnoreCase n name

structure Credential (name value : List Char) : Prop where
  name : isName name = true
  value_ne : value ≠ []
  value_char : ∀ c ∈ value, valueChar c = true

/-- What follows a value does not go on with it. -/
def EndsValue (q : List Char) : Prop := ∀ c ∈ q.head?, valueChar c = false

/-- Every credential is the mask. -/
def Masked (text : List Char) : Prop :=
  ∀ a sep name value q, text = a ++ (sep :: name ++ '=' :: (value ++ q)) → IsSep sep →
    Credential name value →
    EndsValue q → value = mask

/-- Two texts that differ in the values of credentials alone. -/
inductive Veiled : List Char → List Char → Prop where
  | refl (text : List Char) : Veiled text text
  | tail {text : List Char} (before : List Char) {sep : Char} {name value value' q : List Char}
      (h : Veiled text (before ++ (sep :: name ++ '=' :: (value ++ q)))) (hsep : IsSep sep)
      (hvalue : Credential name value) (hvalue' : Credential name value') (hq : EndsValue q) :
      Veiled text (before ++ (sep :: name ++ '=' :: (value' ++ q)))

section Names

/-- What a letter of a name matches. -/
def variants (u : Char) : List Char :=
  [u, u.toLower] ++ (if u = 'I' then ['\u0130', '\u0131'] else []) ++
    (if u = 'K' then ['\u212A'] else []) ++
    (if u = 'S' then ['\u017F'] else [])

theorem mem_variants {u : Char} (h : Py.eqIgnoreCase u c = true) : c ∈ variants u := by
  have hchar {n : Nat} (hn : c.toNat = n) : c = Char.ofNat n := by rw [← hn, Char.ofNat_toNat]
  simp only [Py.eqIgnoreCase, Bool.or_eq_true, Bool.and_eq_true, decide_eq_true_eq] at h
  rcases h with (((rfl | rfl) | ⟨rfl, h | h⟩) | ⟨rfl, h⟩) | ⟨rfl, h⟩
  · simp [variants]
  · simp [variants]
  all_goals
    rw [hchar h]
    decide

theorem eq_of_equals (h : Py.eqIgnoreCase '=' c = true) : c = '=' := by
  have hmem := mem_variants h
  have hall : ∀ c ∈ variants '=', c = '=' := Py.forall_of_all (by decide)
  exact hall c hmem

/-- No letter of a name ends it, begins a parameter or ends a value. -/
theorem nameChar_of_eqIgnoreCase {u : Char} (hu : u ∈ names.flatten)
    (h : Py.eqIgnoreCase u c = true) :
    c ≠ '=' ∧ ¬IsSep c ∧ valueChar c = true := by
  have hall : (names.flatten.all fun u =>
      (variants u).all fun c => decide (c ≠ '=' ∧ ¬IsSep c ∧ valueChar c = true)) =
        true := by decide
  exact Py.forall_of_all (List.all_eq_true.mp hall u hu) c (mem_variants h)

theorem beginsIgnoreCase_append (n : List Char) (u : Char) (cs : List Char) :
    Py.beginsIgnoreCase (n ++ [u]) cs = true ↔
      ∃ name c rest, cs = name ++ c :: rest ∧ n.length = name.length ∧
      Py.beginsIgnoreCase n name = true ∧
        Py.eqIgnoreCase u c = true := by
  induction n generalizing cs with
  | nil =>
    cases cs with
    | nil => simp [Py.beginsIgnoreCase]
    | cons c cs =>
      simp only [List.nil_append, Py.beginsIgnoreCase, Bool.and_true, List.length_nil]
      constructor
      · exact fun h => ⟨[], c, cs, rfl, rfl, trivial, h⟩
      · rintro ⟨name, d, rest, heq, hlen, -, h⟩
        obtain rfl := List.length_eq_zero_iff.mp hlen.symm
        obtain ⟨rfl, -⟩ := List.cons.inj heq
        exact h
  | cons v n ih =>
    cases cs with
    | nil => simp [Py.beginsIgnoreCase]
    | cons d cs =>
      rw [List.cons_append, Py.beginsIgnoreCase, Bool.and_eq_true, ih]
      constructor
      · rintro ⟨hd, name, c, rest, rfl, hlen, hname, hc⟩
        exact ⟨d :: name, c, rest, rfl,
          by simp [hlen], by simp [Py.beginsIgnoreCase, hd, hname], hc⟩
      · rintro ⟨name, c, rest, heq, hlen, hname, hc⟩
        cases name with
        | nil => cases hlen
        | cons d' name =>
          obtain ⟨rfl, rfl⟩ := List.cons.inj heq
          rw [Py.beginsIgnoreCase, Bool.and_eq_true] at hname
          exact ⟨hname.1, name, c, rest, rfl, by simpa using hlen, hname.2, hc⟩

theorem nameChar_of_begins {n : List Char} (hn : ∀ u ∈ n, u ∈ names.flatten)
    (hlen : n.length = name.length) (h : Py.beginsIgnoreCase n name = true) :
    ∀ c ∈ name, c ≠ '=' ∧ ¬IsSep c ∧ valueChar c = true := by
  induction n generalizing name with
  | nil =>
    obtain rfl := List.length_eq_zero_iff.mp hlen.symm
    exact List.forall_mem_nil _
  | cons u n ih =>
    cases name with
    | nil => cases hlen
    | cons c name =>
      rw [Py.beginsIgnoreCase, Bool.and_eq_true] at h
      obtain ⟨hu, hn⟩ := List.forall_mem_cons.mp hn
      exact List.forall_mem_cons.mpr ⟨nameChar_of_eqIgnoreCase hu h.1,
        ih hn (by simpa using hlen) h.2⟩

theorem mem_flatten_names {n : List Char} (hn : n ∈ names) :
    ∀ u ∈ n, u ∈ names.flatten := fun _ hu =>
  List.mem_flatten.mpr ⟨n, hn, hu⟩

theorem nameChar_of_isName (h : isName name = true) :
    ∀ c ∈ name, c ≠ '=' ∧ ¬IsSep c ∧ valueChar c = true := by
  obtain ⟨n, hn, hname⟩ := List.any_eq_true.mp h
  rw [Bool.and_eq_true, decide_eq_true_eq] at hname
  exact nameChar_of_begins (mem_flatten_names hn) hname.1 hname.2

theorem named_some (h : named cs = some name) :
    isName name = true ∧ ∃ rest, cs = name ++ '=' :: rest := by
  obtain ⟨n, hfound, hname⟩ := Option.map_eq_some_iff.mp h
  have hbegins := List.find?_some hfound
  obtain ⟨text, e, rest, rfl, hlen, htext, he⟩ := (beginsIgnoreCase_append n '=' cs).mp hbegins
  obtain rfl := eq_of_equals he
  rw [hlen, List.take_left] at hname
  subst hname
  refine ⟨List.any_eq_true.mpr ⟨n, List.mem_of_find?_eq_some hfound, ?_⟩, rest, rfl⟩
  rw [Bool.and_eq_true, decide_eq_true_eq]
  exact ⟨hlen, htext⟩

theorem named_eq (h : isName name = true) (rest : List Char) :
    named (name ++ '=' :: rest) = some name := by
  have hstop {name : List Char} (h : isName name = true) (rest : List Char) :
      (name ++ '=' :: rest).takeWhile (· ≠ '=') = name :=
    (Py.takeWhile_run (fun c hc => decide_eq_true (nameChar_of_isName h c hc).1) (by simp)).1
  cases hnamed : named (name ++ '=' :: rest) with
  | some found =>
    obtain ⟨hfound, rest', heq⟩ := named_some hnamed
    have hname := hstop h rest
    rw [heq, hstop hfound rest'] at hname
    rw [hname]
  | none =>
    obtain ⟨n, hn, hname⟩ := List.any_eq_true.mp h
    rw [Bool.and_eq_true, decide_eq_true_eq] at hname
    rw [named, Option.map_eq_none_iff, List.find?_eq_none] at hnamed
    exact absurd ((beginsIgnoreCase_append n '=' _).mpr ⟨name, '=', rest, rfl, hname.1, hname.2,
      rfl⟩) (hnamed n hn)

end Names

section Pattern

theorem endsValue_cons (hc : valueChar c = false) (cs : List Char) : EndsValue (c :: cs) := by
  intro d hd
  obtain rfl := Option.mem_some.mp hd
  exact hc

theorem endsValue_dropWhile (cs : List Char) : EndsValue (cs.dropWhile valueChar) := by
  intro c hc
  have hstop := List.head?_dropWhile_not valueChar cs
  rw [Option.mem_def.mp hc] at hstop
  exact hstop

theorem drop_credential (sep : Char) (name value q : List Char) :
    (sep :: name ++ '=' :: (value ++ q)).drop (name.length + 2 + value.length) = q := by
  rw [show sep :: name ++ '=' :: (value ++ q) = (sep :: name ++ '=' :: value) ++ q by simp]
  exact List.drop_left' (by simp; omega)

theorem secretQuery_some {n : Nat} {r : List Char} (h : secretQuery before cs = some (n, r)) :
    ∃ sep name value rest, cs = sep :: name ++ '=' :: (value ++ rest) ∧ IsSep sep ∧
      Credential name value ∧
      EndsValue rest ∧ n = name.length + 2 + value.length ∧ r = sep :: name ++ '=' :: mask := by
  unfold secretQuery at h
  split at h
  · cases h
  · next sep cs =>
    split at h
    · next hsep =>
      split at h
      · next name hnamed =>
        obtain ⟨hname, rest, rfl⟩ := named_some hnamed
        have hdrop : (name ++ '=' :: rest).drop (name.length + 1) = rest := by simp
        rw [hdrop] at h
        dsimp only at h
        split at h
        · next hne =>
          cases h
          refine ⟨sep, name, rest.takeWhile valueChar, rest.dropWhile valueChar, by simp, hsep,
            ⟨hname, hne, fun c hc => List.mem_takeWhile_imp hc⟩, endsValue_dropWhile rest, rfl, rfl⟩
        · cases h
      · cases h
    · cases h

theorem secretQuery_eq (before : List Char) (hsep : IsSep sep) (h : Credential name value)
    (hq : EndsValue q) :
    secretQuery before (sep :: name ++ '=' :: (value ++ q)) =
      some (name.length + 2 + value.length, sep :: name ++ '=' :: mask) := by
  have hdrop : (name ++ '=' :: (value ++ q)).drop (name.length + 1) = value ++ q := by simp
  unfold secretQuery
  rw [List.cons_append]
  dsimp only
  rw [if_pos hsep, named_eq h.name]
  dsimp only
  rw [hdrop, (Py.takeWhile_run h.value_char hq).1, if_pos h.value_ne]

theorem secretQuery_of_not_sep (h : ¬IsSep c) (cs : List Char) :
    secretQuery before (c :: cs) = none := by
  unfold secretQuery
  exact if_neg h

theorem secretQuery_forward : Py.Forward secretQuery := fun _ _ => rfl

theorem secretQuery_bounded : Py.Bounded secretQuery := by
  intro before cs n r h
  obtain ⟨sep, name, value, rest, rfl, -, -, -, rfl, -⟩ := secretQuery_some h
  simp only [List.length_append, List.length_cons]
  omega

theorem sub_credential (hsep : IsSep sep) (h : Credential name value) (hq : EndsValue q) :
    redactSecrets (sep :: name ++ '=' :: (value ++ q)) = sep :: name ++ '=' :: mask ++
      redactSecrets q := by
  have hmatch : secretQuery [] (sep :: name ++ '=' :: (value ++ q)) = _ :=
    secretQuery_eq [] hsep h hq
  unfold redactSecrets
  rw [secretQuery_forward.sub_match secretQuery_bounded hmatch, drop_credential]

theorem head_redactSecrets (cs : List Char) : (redactSecrets cs).head? = cs.head? := by
  cases cs with
  | nil => rfl
  | cons c cs =>
    unfold redactSecrets
    cases hmatch : secretQuery [] (c :: cs) with
    | none =>
      rw [secretQuery_forward.sub_none hmatch]
      rfl
    | some x =>
      obtain ⟨n, r⟩ := x
      obtain ⟨sep, name, value, rest, heq, -, -, -, -, rfl⟩ := secretQuery_some hmatch
      rw [secretQuery_forward.sub_match secretQuery_bounded hmatch, heq]
      rfl

theorem mask_credential (h : isName name = true) : Credential name mask :=
  ⟨h, by decide, Py.forall_of_all (by decide)⟩

end Pattern

section Masked

/-- Nothing that is replaced begins where the text was kept. -/
theorem secretQuery_kept (h : secretQuery [] (c :: cs) = none) :
    secretQuery [] (c :: redactSecrets cs) = none := by
  cases hmatch : secretQuery [] (c :: redactSecrets cs) with
  | none => rfl
  | some x =>
    obtain ⟨n, r⟩ := x
    obtain ⟨sep, name, value, rest, heq, hsep, hcred, -, -, -⟩ := secretQuery_some hmatch
    obtain ⟨rfl, hsub⟩ := List.cons.inj heq
    have hplain : ∀ d ∈ name ++ ['='], ¬IsSep d := List.forall_mem_append.mpr
      ⟨fun d hd => (nameChar_of_isName hcred.name d hd).2.1, Py.forall_of_all (by decide)⟩
    have hhead (cs : List Char) (n : Nat) (r : List Char)
        (hmatch : secretQuery [] cs = some (n, r)) :
        ∃ d r', r = d :: r' ∧ IsSep d := by
      obtain ⟨sep, name, value, rest, -, hsep, -, -, -, rfl⟩ := secretQuery_some hmatch
      exact ⟨sep, _, rfl, hsep⟩
    have hshape : Py.sub secretQuery cs = name ++ ['='] ++ (value ++ rest) := by
      rw [List.append_assoc]
      exact hsub
    -- the name and the sign were there before, and so was the first character of the value
    obtain ⟨rest', rfl, hrest⟩ :=
        secretQuery_forward.sub_prefix secretQuery_bounded hhead hplain hshape
    have hfirst := head_redactSecrets rest'
    rw [redactSecrets, ← hrest, List.head?_append_of_ne_nil _ hcred.value_ne] at hfirst
    have hvalue : rest'.takeWhile valueChar ≠ [] := by
      cases rest' with
      | nil => exact absurd (List.head?_eq_none_iff.mp hfirst) hcred.value_ne
      | cons d ds =>
        have hd := hcred.value_char d (List.mem_of_head? hfirst)
        simp [List.takeWhile_cons_of_pos hd]
    have hfound := secretQuery_eq [] hsep ⟨hcred.name, hvalue,
        fun d hd => List.mem_takeWhile_imp hd⟩
      (endsValue_dropWhile rest')
    rw [List.append_assoc] at h
    rw [List.takeWhile_append_dropWhile] at hfound
    exact absurd (h.symm.trans hfound) (by simp)

theorem settled_redactSecrets (text : List Char) : Py.Settled secretQuery (redactSecrets text) := by
  refine secretQuery_forward.settled_sub secretQuery_bounded (fun c cs => secretQuery_kept) ?_ text
  intro cs n r hmatch x hne hx k y hfound
  obtain ⟨sep, name, value, rest, rfl, hsep, hcred, hends, rfl, rfl⟩ := secretQuery_some hmatch
  rw [drop_credential] at hfound ⊢
  rcases List.suffix_cons_iff.mp hx with rfl | hx
  · -- the masked credential is matched as a whole
    have hrest : EndsValue (Py.sub secretQuery rest) := fun c hc => hends c (by
      rw [← head_redactSecrets]
      exact hc)
    have hshape : sep :: name ++ '=' :: mask ++ Py.sub secretQuery rest =
        sep :: name ++ '=' :: (mask ++ Py.sub secretQuery rest) := by simp
    have hwhole := secretQuery_eq [] hsep (mask_credential hcred.name) hrest
    rw [← hshape] at hwhole
    cases hwhole.symm.trans hfound
    exact List.take_left' (by simp; omega)
  · -- nothing begins within it
    cases x with
    | nil => exact absurd rfl hne
    | cons d x =>
      have hd : ¬IsSep d := by
        have hmem : d ∈ name ++ '=' :: mask := hx.subset (List.mem_cons_self ..)
        rcases List.mem_append.mp hmem with hmem | hmem
        · exact (nameChar_of_isName hcred.name d hmem).2.1
        · have hall : ∀ d ∈ '=' :: mask, ¬IsSep d := Py.forall_of_all (by decide)
          exact hall d hmem
      rw [List.cons_append, secretQuery_of_not_sep hd] at hfound
      cases hfound

/-- A text that has been redacted shows no credential, and is redacted for good. -/
theorem redact_masked (text : List Char) :
    Masked (redactSecrets text) ∧ redactSecrets (redactSecrets text) = redactSecrets text := by
  have hsettled := settled_redactSecrets text
  refine ⟨fun a sep name value q htext hsep hcred hq => ?_,
    secretQuery_forward.sub_settled secretQuery_bounded hsettled⟩
  have htake := hsettled _ _ _ ⟨a, htext.symm⟩ (secretQuery_eq [] hsep hcred hq)
  have hshape : sep :: name ++ '=' :: (value ++ q) = (sep :: name ++ '=' :: value) ++ q := by simp
  rw [hshape, List.take_left' (by simp; omega)] at htake
  have htail := List.append_cancel_left htake
  exact (List.cons.inj htail).2

end Masked

section Veiled

/-- A text that ends in the value of a credential. -/
def Opens (a : List Char) : Prop :=
  ∃ sep name w, a = sep :: name ++ '=' :: w ∧ IsSep sep ∧ isName name = true ∧ ∀ c ∈ w,
    valueChar c = true

/-- A text with a credential that goes on over a separator. -/
def Crosses (d : Char) (a : List Char) : Prop := valueChar d = true ∧ Opens a

/-- What comes after a text changes nothing in it, but for the value it ends in. -/
theorem secretQuery_append (hd : IsSep d) (hne : a ≠ []) (hopen : ¬Crosses d a)
    (t : List Char) : secretQuery [] (a ++ d :: t) = secretQuery [] a := by
  cases a with
  | nil => exact absurd rfl hne
  | cons c a =>
    by_cases hsep : IsSep c
    · cases hnamed : named a with
      | none =>
        have hnone : named (a ++ d :: t) = none := by
          cases hfound : named (a ++ d :: t) with
          | none => rfl
          | some name =>
            obtain ⟨hname, rest, heq⟩ := named_some hfound
            have hplain : ∀ c ∈ name ++ ['='], ¬IsSep c := List.forall_mem_append.mpr
              ⟨fun c hc => (nameChar_of_isName hname c hc).2.1, Py.forall_of_all (by decide)⟩
            have hsplit : a ++ d :: t = name ++ ['='] ++ rest := by rw [heq, List.append_cons]
            rcases List.append_eq_append_iff.mp hsplit with ⟨x, hx, hrest⟩ | ⟨x, rfl, -⟩
            · -- the name would go over the separator
              cases x with
              | nil =>
                rw [List.append_nil] at hx
                have hself := named_eq hname []
                rw [hx, hnamed] at hself
                cases hself
              | cons e x =>
                obtain ⟨rfl, -⟩ := List.cons.inj hrest
                exact absurd hd (hplain d (by rw [hx]; simp))
            · have hself := named_eq hname x
              rw [List.append_cons, hnamed] at hself
              cases hself
        simp only [secretQuery, List.cons_append, hsep, if_true, hnamed, hnone]
      | some name =>
        obtain ⟨hname, w, rfl⟩ := named_some hnamed
        have hvalue : (w ++ d :: t).takeWhile valueChar = w.takeWhile valueChar := by
          by_cases hdv : valueChar d = true
          · rcases Py.run_or_stop valueChar w with hall | ⟨run, e, b, rfl, hrun, he⟩
            · exact absurd ⟨hdv, c, name, w, rfl, hsep, hname, hall⟩ hopen
            · rw [List.append_assoc, List.cons_append, Py.takeWhile_append_stop he,
                Py.takeWhile_append_stop he]
          · exact Py.takeWhile_append_stop (by simpa using hdv) w t
        have happend : name ++ '=' :: w ++ d :: t = name ++ '=' :: (w ++ d :: t) := by simp
        simp only [secretQuery, List.cons_append, happend, hsep, if_true, named_eq hname]
        simp [hvalue]
    · rw [List.cons_append, secretQuery_of_not_sep hsep, secretQuery_of_not_sep hsep]

/-- Nothing goes on over a separator from within a match that ends before it. -/
theorem crosses_inner {n : Nat} {r x : List Char} (h : secretQuery [] a = some (n, r))
    (hno : ¬Crosses d a) (hne : x ≠ []) : ¬Crosses d (x ++ a.drop n) := by
  rintro ⟨hd, sep, name, w, hx, -, hname, hw⟩
  obtain ⟨sep', name', value, rest, rfl, hsep', hcred, hq, rfl, -⟩ := secretQuery_some h
  have hdrop : (sep' :: name' ++ '=' :: (value ++ rest)).drop
      (name'.length + 2 + value.length) = rest := by
    have hshape : sep' :: name' ++ '=' :: (value ++ rest) =
        (sep' :: name' ++ '=' :: value) ++ rest := by simp
    rw [hshape]
    exact List.drop_left' (by simp; omega)
  rw [hdrop] at hx
  cases rest with
  | nil =>
    refine hno ⟨hd, sep', name', value, by simp, hsep', hcred.name, hcred.value_char⟩
  | cons c rest =>
    -- the match ends at a character that goes into no name and no value
    have htail : ∀ e ∈ name ++ '=' :: w, valueChar e = true :=
      List.forall_mem_append.mpr ⟨fun e he => (nameChar_of_isName hname e he).2.2,
        List.forall_mem_cons.mpr ⟨by decide, hw⟩⟩
    have hc : valueChar c = false := hq c rfl
    cases x with
    | nil => exact hne rfl
    | cons e x =>
      have htl : x ++ c :: rest = name ++ '=' :: w := (List.cons.inj hx).2
      have hmem : c ∈ x ++ c :: rest := by simp
      rw [htl] at hmem
      rw [htail c hmem] at hc
      cases hc

/-- One result for all values of a credential. -/
theorem redact_hides (before : List Char) (hsep : IsSep sep) (hname : isName name = true)
    (hq : EndsValue q) :
    ∃ r, ∀ value, Credential name value →
      redactSecrets (before ++ (sep :: name ++ '=' :: (value ++ q))) = r := by
  have hcount : ∀ cs n r, secretQuery [] cs = some (n, r) →
      r.count '?' ≤ (cs.take n).count '?' := by
    intro cs n r h
    obtain ⟨sep, name, value, rest, rfl, -, -, -, rfl, rfl⟩ := secretQuery_some h
    have hshape : sep :: name ++ '=' :: (value ++ rest) =
        (sep :: name ++ '=' :: value) ++ rest := by simp
    rw [hshape, List.take_left' (by simp; omega)]
    simp [mask, List.count_cons]
  have hcross (a t : List Char) (hne : a ≠ []) (h : ¬Crosses sep a) :
      secretQuery [] (a ++ sep :: t) = secretQuery [] a := secretQuery_append hsep hne h t
  have hnil : ¬Crosses sep [] := by
    rintro ⟨-, sep', name', w, h, -⟩
    cases h
  rcases secretQuery_forward.sub_cross secretQuery_bounded hnil hcross
      (fun a n r hmatch hno x hne _ hx => crosses_inner hmatch hno hne hx) hcount
        (P := fun _ => True)
      (fun _ _ _ _ _ _ _ => trivial) before with
    ⟨-, hsplit⟩ | ⟨a₁, a₂, z, rfl, hopen, -, -, -, hsub⟩
  · refine ⟨redactSecrets before ++ (sep :: name ++ '=' :: mask ++ redactSecrets q),
      fun value h => ?_⟩
    rw [← sub_credential hsep h hq]
    exact hsplit _
  · -- the credential stands within the value of another one
    obtain ⟨hvalue, sep', name', w, rfl, hsep', hname', hw⟩ := hopen
    refine ⟨z ++ (sep' :: name' ++ '=' :: mask ++ redactSecrets q), fun value h => ?_⟩
    have hcred : Credential name' (w ++ (sep :: name ++ '=' :: value)) := by
      refine ⟨hname', by simp, List.forall_mem_append.mpr ⟨hw, ?_⟩⟩
      rw [List.cons_append]
      exact List.forall_mem_cons.mpr ⟨hvalue, List.forall_mem_append.mpr
        ⟨fun c hc => (nameChar_of_isName hname c hc).2.2,
          List.forall_mem_cons.mpr ⟨by decide, h.value_char⟩⟩⟩
    have hshape : sep' :: name' ++ '=' :: w ++ sep :: (name ++ '=' :: (value ++ q)) =
        sep' :: name' ++ '=' :: (w ++ (sep :: name ++ '=' :: value) ++ q) := by simp
    rw [← sub_credential hsep' hcred hq, ← hshape]
    exact hsub _

theorem redact_veiled {text text' : List Char} (h : Veiled text text') :
    redactSecrets text = redactSecrets text' := by
  induction h with
  | refl => rfl
  | tail before _ hsep hvalue hvalue' hq ih =>
    obtain ⟨r, hr⟩ := redact_hides before hsep hvalue.name hq
    rw [ih, hr _ hvalue, hr _ hvalue']

end Veiled

end LogRedaction
end InferenceEngine
