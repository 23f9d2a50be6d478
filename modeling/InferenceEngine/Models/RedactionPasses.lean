import InferenceEngine.Models.Redaction

/-!
# Models.RedactionPasses

What each of the three patterns does to a text.

* `redactWith_space`: a text is redacted word by word.
* `sub_userinfo_quiet`, `sub_url_quiet`: a stretch without `://`.
* `sub_url_query`, `sub_param_query`: a query is either on its own, or inside the URL or the value
  that is open there.
-/

namespace InferenceEngine
namespace Redaction

variable {u : Unicode} {nested : List Char → List Char}
  {a b cs before name value : List Char} {c : Char}

section Userinfo

theorem userinfo_some {n : Nat} {r : List Char} (h : userinfo before cs = some (n, r)) :
    r = [] ∧ n = ((cs.takeWhile userinfoChar).rdropWhile (· ≠ '@')).length ∧ 0 < n ∧
      before.take 3 = ['/', '/', ':'] := by
  unfold userinfo at h
  dsimp only at h
  split at h
  · next hcond =>
    cases h
    exact ⟨rfl, rfl, List.length_pos_iff.mpr hcond.2, hcond.1⟩
  · cases h

theorem userinfo_none (h : before.take 3 ≠ ['/', '/', ':']) (cs : List Char) :
    userinfo before cs = none := by
  unfold userinfo
  rw [if_neg fun hcond => h hcond.1]

theorem userinfo_bounded : Py.Bounded userinfo := by
  intro before cs n r h
  obtain ⟨-, rfl, hpos, -⟩ := userinfo_some h
  have hrun := (List.rdropWhile_prefix (· ≠ '@') (cs.takeWhile userinfoChar)).length_le
  have hcs := (List.takeWhile_prefix userinfoChar (l := cs)).length_le
  exact ⟨hpos, hrun.trans hcs⟩

theorem userinfo_stop (hc : userinfoChar c = false) (before b : List Char) :
    userinfo before (c :: b) = none := by
  unfold userinfo
  simp [hc]

theorem userinfo_ahead (hc : userinfoChar c = false) (before a b : List Char) :
    userinfo before (a ++ c :: b) = userinfo before a := by
  unfold userinfo
  rw [Py.takeWhile_append_stop hc]

theorem userinfo_behind (hcolon : c ≠ ':') (hslash : c ≠ '/') : Py.Behind userinfo c := by
  intro x before cs
  have hlook : (x ++ c :: before).take 3 = ['/', '/', ':'] ↔ x.take 3 = ['/', '/', ':'] := by
    rcases x with _ | ⟨d, _ | ⟨e, _ | ⟨f, x⟩⟩⟩ <;> simp [hcolon, hslash]
  unfold userinfo
  simp only [hlook]

theorem userinfo_barrier (hc : userinfoChar c = false) (hcolon : c ≠ ':') (hslash : c ≠ '/') :
    Py.Barrier userinfo c where
  ahead before a b _ := userinfo_ahead hc before a b
  here := userinfo_stop hc
  behind := userinfo_behind hcolon hslash

theorem userinfo_quiet (h : ¬marks <:+: a) (cs : List Char) : userinfo a.reverse cs = none := by
  refine userinfo_none (fun hlook => h ?_) cs
  have hdrop := List.take_append_drop 3 a.reverse
  rw [hlook, ← List.reverse_inj, List.reverse_reverse, List.reverse_append] at hdrop
  exact ⟨(a.reverse.drop 3).reverse, [], by rw [← hdrop]; simp [marks]⟩

theorem sub_userinfo_cons (hcolon : c ≠ ':') (hslash : c ≠ '/') (b : List Char) :
    Py.sub userinfo (c :: b) = c :: Py.sub userinfo b :=
  (userinfo_behind hcolon hslash).subFrom_cons (userinfo_none (by simp) _)

theorem sub_userinfo_quiet (h : ¬marks <:+: a) (hb : ∀ c ∈ b.head?, c ≠ ':' ∧ c ≠ '/') :
    Py.sub userinfo (a ++ b) = a ++ Py.sub userinfo b := by
  have hall (a₁ a₂ : List Char) (ha : a = a₁ ++ a₂) (hne : a₂ ≠ []) : userinfo a₁.reverse
      (a₂ ++ b) = none :=
    userinfo_quiet (fun hmarks => h (hmarks.trans ⟨[], a₂, by rw [ha]; rfl⟩)) _
  rw [Py.sub_append_none hall]
  cases b with
  | nil => rfl
  | cons c b =>
    obtain ⟨hcolon, hslash⟩ := hb c rfl
    rw [(userinfo_behind hcolon hslash).subFrom_cons (userinfo_quiet h _),
      sub_userinfo_cons hcolon hslash]

theorem mem_sub_userinfo (h : c ∈ Py.sub userinfo cs) : c ∈ cs := by
  refine Py.forall_sub (P := (· ∈ cs)) (fun before text n r hmatch _ c hc => ?_)
    (fun c hc => hc) c h
  rw [(userinfo_some hmatch).1] at hc
  cases hc

end Userinfo

section Urls

theorem afterMarks_some {rest : List Char} (h : afterMarks cs = some rest) :
    cs = marks ++ rest := by
  unfold afterMarks at h
  split at h
  · cases h
    rfl
  · cases h

theorem afterMarks_append (hcolon : c ≠ ':') (hslash : c ≠ '/') (a b : List Char) :
    afterMarks (a ++ c :: b) = (afterMarks a).map (· ++ c :: b) := by
  rcases a with _ | ⟨d, _ | ⟨e, _ | ⟨f, a⟩⟩⟩ <;>
    simp only [afterMarks, List.nil_append, List.cons_append] <;> grind

/-- A text that ends in a URL: its scheme and what stands after `://`. -/
structure UrlOpen (scheme body : List Char) : Prop where
  letter : scheme.head?.any isLetter = true
  scheme_char : ∀ c ∈ scheme, schemeChar c = true
  body_char : ∀ c ∈ body, urlChar c = true

theorem schemeChar_of_isLetter (h : isLetter c = true) : schemeChar c = true := by
  unfold schemeChar
  rw [h]
  rfl

theorem schemeChar_range (h : schemeChar c = true) : 43 ≤ c.toNat ∧ c.toNat ≤ 122 := by
  simp only [schemeChar, isLetter, Char.isDigit, Bool.or_eq_true, Bool.and_eq_true,
    decide_eq_true_eq, Char.le_def, UInt32.le_iff_toNat_le, List.mem_cons, List.not_mem_nil,
    or_false, Char.toNat, ge_iff_le] at h ⊢
  rcases h with ((h | h) | h) | rfl | rfl | rfl
  · exact ⟨le_trans (by decide) h.1, h.2⟩
  · exact ⟨le_trans (by decide) h.1, le_trans h.2 (by decide)⟩
  · exact ⟨le_trans (by decide) h.1, le_trans h.2 (by decide)⟩
  all_goals decide

theorem schemeChar_of_isSpace (h : Py.isSpace c = true) : schemeChar c = false := by
  rw [Bool.eq_false_iff]
  intro hscheme
  obtain ⟨hlo, hhi⟩ := schemeChar_range hscheme
  simp only [Py.isSpace, Bool.or_eq_true, Bool.and_eq_true, decide_eq_true_eq, beq_iff_eq] at h
  omega

theorem stop_of_url (h : urlChar c = false) : schemeChar c = false ∧ c ≠ ':' ∧ c ≠ '/' := by
  simp only [urlChar, breakers, Bool.not_eq_false', Bool.or_eq_true, decide_eq_true_eq] at h
  rcases h with (h | h) | h
  · exact (Py.forall_of_all (by decide) : ∀ d ∈ ['"', '<', '>'], schemeChar d = false ∧
      d ≠ ':' ∧ d ≠ '/') c h
  · exact (Py.forall_of_all (by decide) :
      ∀ d ∈ breakers, schemeChar d = false ∧ d ≠ ':' ∧ d ≠ '/') c (of_decide_eq_true h)
  · refine ⟨schemeChar_of_isSpace h, ?_, ?_⟩ <;>
    · rintro rfl
      exact absurd h (by decide)

theorem head_takeWhile_scheme (h : cs.head?.any isLetter = true) :
    (cs.takeWhile schemeChar).head?.any isLetter = true := by
  cases cs with
  | nil => cases h
  | cons c cs =>
    have hc : isLetter c = true := h
    rw [List.takeWhile_cons_of_pos (schemeChar_of_isLetter hc)]
    exact h

theorem urlInText_some {scheme found : List Char} (h : urlInText cs = some (scheme, found)) :
    UrlOpen scheme found ∧ found ≠ [] ∧ ∃ rest, cs = scheme ++ marks ++ found ++ rest := by
  unfold urlInText at h
  dsimp only at h
  split at h
  · next rest hrest =>
    split at h
    · next hcond =>
      cases h
      refine ⟨⟨head_takeWhile_scheme hcond.1, fun c hc => List.mem_takeWhile_imp hc,
        fun c hc => List.mem_takeWhile_imp hc⟩, hcond.2, rest.dropWhile urlChar, ?_⟩
      rw [List.append_assoc, List.takeWhile_append_dropWhile, List.append_assoc,
        ← afterMarks_some hrest, List.takeWhile_append_dropWhile]
    · cases h
  · cases h

theorem urlInText_open {scheme rest : List Char} (h : UrlOpen scheme (rest.takeWhile urlChar))
    (hne : rest.takeWhile urlChar ≠ []) :
    urlInText (scheme ++ marks ++ rest) = some (scheme, rest.takeWhile urlChar) := by
  obtain ⟨htake, hdrop⟩ :=
      Py.takeWhile_run (b := marks ++ rest) h.scheme_char (by simp [marks]; decide)
  have hhead : (scheme ++ (marks ++ rest)).head?.any isLetter = true := by
    have := h.letter
    cases scheme with
    | nil => cases this
    | cons c scheme => exact this
  unfold urlInText
  rw [List.append_assoc, htake, hdrop]
  exact if_pos ⟨hhead, hne⟩

/-- A character of no scheme ends the search for `://`; what stands before it decides, if the URL
ends there. -/
theorem urlInText_append (hscheme : schemeChar c = false) (hcolon : c ≠ ':') (hslash : c ≠ '/')
    (hne : a ≠ []) (hstop : ∀ scheme rest, a = scheme ++ marks ++ rest →
      UrlOpen scheme [] → (rest ++ c :: b).takeWhile urlChar = rest.takeWhile urlChar) :
    urlInText (a ++ c :: b) = urlInText a := by
  have hhead : (a ++ c :: b).head? = a.head? := by
    cases a with
    | nil => exact absurd rfl hne
    | cons d a => rfl
  unfold urlInText
  rw [Py.takeWhile_append_stop hscheme, Py.dropWhile_append_stop hscheme,
    afterMarks_append hcolon hslash, hhead]
  cases hmarks : afterMarks (a.dropWhile schemeChar) with
  | none => rfl
  | some rest =>
    by_cases hletter : a.head?.any isLetter = true
    · have ha : a = a.takeWhile schemeChar ++ marks ++ rest := by
        rw [List.append_assoc, ← afterMarks_some hmarks, List.takeWhile_append_dropWhile]
      have hopen : UrlOpen (a.takeWhile schemeChar) [] :=
        ⟨head_takeWhile_scheme hletter, fun c hc => List.mem_takeWhile_imp hc,
          List.forall_mem_nil _⟩
      simp only [Option.map_some, hstop _ rest ha hopen]
    · simp [hletter]

theorem urlInText_end {scheme found rest : List Char}
    (h : urlInText (scheme ++ marks ++ found ++ rest) = some (scheme, found)) :
    ∀ c ∈ rest.head?, urlChar c = false := by
  obtain ⟨hopen, hne, -⟩ := urlInText_some h
  have htake : (found ++ rest).takeWhile urlChar = found ++ rest.takeWhile urlChar :=
    List.takeWhile_append_of_pos hopen.body_char
  have hwhole := @urlInText_open scheme (found ++ rest)
    ⟨hopen.letter, hopen.scheme_char, fun c hc => List.mem_takeWhile_imp hc⟩ (by simp [htake, hne])
  rw [← List.append_assoc, h, htake] at hwhole
  have hnil : rest.takeWhile urlChar = [] := by simpa using hwhole
  intro c hc
  cases rest with
  | nil => cases hc
  | cons d rest =>
    cases hc
    by_contra hurl
    rw [List.takeWhile_cons_of_pos (by simpa using hurl)] at hnil
    cases hnil

theorem url_forward : Py.Forward (url u nested) := fun _ _ => rfl

theorem url_bounded : Py.Bounded (url u nested) := by
  intro before cs n r h
  unfold url at h
  obtain ⟨⟨scheme, found⟩, hfound, hnr⟩ := Option.map_eq_some_iff.mp h
  cases hnr
  obtain ⟨-, -, rest, rfl⟩ := urlInText_some hfound
  simp only [List.length_append, marks, List.length_cons, List.length_nil]
  omega

theorem urlInText_none_of_scheme (hscheme : schemeChar c = false) (b : List Char)
    (hcolon : c ≠ ':') :
    urlInText (c :: b) = none := by
  unfold urlInText
  rw [List.dropWhile_cons_of_neg (by simp [hscheme])]
  unfold afterMarks
  split
  · next heq =>
    split at heq
    · next h => exact absurd (List.cons.inj h).1 hcolon
    · cases heq
  · rfl

theorem url_barrier (hscheme : schemeChar c = false) (hcolon : c ≠ ':') (hslash : c ≠ '/')
    (hurl : urlChar c = false) : Py.Barrier (url u nested) c where
  ahead before a b hne := by
    unfold url
    rw [urlInText_append hscheme hcolon hslash hne fun _ rest _ _ => Py.takeWhile_append_stop hurl rest b]
  here before b := by
    unfold url
    rw [urlInText_none_of_scheme hscheme b hcolon]
    rfl
  behind := url_forward.behind c

theorem urlInText_quiet (h : ¬marks <:+: a) (hb : ∀ c ∈ b.head?, schemeChar c = false ∧ c ≠ ':' ∧
    c ≠ '/') (hne : a ≠ []) : urlInText (a ++ b) = none := by
  have hnone : urlInText a = none := by
    cases hurl : urlInText a with
    | none => rfl
    | some x =>
      obtain ⟨-, -, rest, ha⟩ := urlInText_some hurl
      exact absurd ⟨x.1, x.2 ++ rest, by rw [ha]; simp⟩ h
  cases b with
  | nil => rw [List.append_nil, hnone]
  | cons c b =>
    obtain ⟨hscheme, hcolon, hslash⟩ := hb c rfl
    rw [urlInText_append hscheme hcolon hslash hne, hnone]
    intro scheme rest ha
    exact absurd ⟨scheme, rest, ha.symm⟩ h

theorem sub_url_quiet (h : ¬marks <:+: a)
    (hb : ∀ c ∈ b.head?, schemeChar c = false ∧ c ≠ ':' ∧ c ≠ '/') :
    Py.sub (url u nested) (a ++ b) = a ++ Py.sub (url u nested) b := by
  refine url_forward.sub_append_none fun a' hne hsuffix => ?_
  unfold url
  rw [urlInText_quiet (fun hmarks => h (hmarks.trans hsuffix.isInfix)) hb hne]
  rfl

theorem sub_url_match {scheme found rest : List Char}
    (h : urlInText (scheme ++ marks ++ found ++ rest) = some (scheme, found)) :
    Py.sub (url u nested) (scheme ++ marks ++ found ++ rest) =
      redactUrl u nested scheme (splitTrailing found).1 ++ (splitTrailing found).2 ++
        Py.sub (url u nested) rest := by
  have hmatch : url u nested [] (scheme ++ marks ++ found ++ rest) =
      some (scheme.length + 3 + found.length,
        redactUrl u nested scheme (splitTrailing found).1 ++ (splitTrailing found).2) := by
    unfold url
    rw [h]
    rfl
  have hdrop : (scheme ++ marks ++ found ++ rest).drop (scheme.length + 3 + found.length) = rest :=
    List.drop_left' (by simp [marks]; omega)
  rw [url_forward.sub_match url_bounded hmatch, hdrop]

theorem sub_url_cons (hscheme : schemeChar c = false) (hcolon : c ≠ ':') (b : List Char) :
    Py.sub (url u nested) (c :: b) = c :: Py.sub (url u nested) b := by
  refine url_forward.sub_none ?_
  unfold url
  rw [urlInText_none_of_scheme hscheme b hcolon]
  rfl

/-- What stands for a URL that goes on over a `?`. -/
theorem sub_url_open {scheme body : List Char} (h : UrlOpen scheme body) (t : List Char) :
    Py.sub (url u nested) (scheme ++ marks ++ body ++ '?' :: t) =
      redactUrl u nested scheme (splitTrailing (body ++ '?' :: t.takeWhile urlChar)).1 ++
        (splitTrailing (body ++ '?' :: t.takeWhile urlChar)).2 ++
          Py.sub (url u nested) (t.dropWhile urlChar) := by
  have hbody : ∀ c ∈ body ++ ['?'], urlChar c = true := by
    intro c hc
    rcases List.mem_append.mp hc with hc | hc
    · exact h.body_char c hc
    · obtain rfl := List.mem_singleton.mp hc
      decide
  have htake : (body ++ '?' :: t).takeWhile urlChar = body ++ '?' :: t.takeWhile urlChar := by
    rw [List.append_cons body '?' t, List.append_cons body '?' (t.takeWhile urlChar),
      List.takeWhile_append_of_pos hbody]
  have hopen : UrlOpen scheme ((body ++ '?' :: t).takeWhile urlChar) :=
    ⟨h.letter, h.scheme_char, fun c hc => List.mem_takeWhile_imp hc⟩
  have hfound := urlInText_open hopen (by simp [htake])
  have hshape : scheme ++ marks ++ (body ++ '?' :: t) =
      scheme ++ marks ++ (body ++ '?' :: t.takeWhile urlChar) ++ t.dropWhile urlChar := by
    simp
  rw [htake, hshape] at hfound
  rw [List.append_assoc, hshape]
  exact sub_url_match hfound

/-- A URL of the text goes on at its end; it is the first one that does. -/
structure UrlRuns (a scheme body : List Char) : Prop where
  openness : UrlOpen scheme body
  suffix : scheme ++ marks ++ body <:+ a
  first : ∀ scheme' body', UrlOpen scheme' body' → scheme' ++ marks ++ body' <:+ a →
    scheme' ++ marks ++ body' <:+ scheme ++ marks ++ body

theorem UrlRuns.unique {a scheme scheme' body body' : List Char} (h : UrlRuns a scheme body)
    (h' : UrlRuns a scheme' body') : scheme = scheme' ∧ body = body' := by
  have hle := h'.first _ _ h.openness h.suffix
  have hge := h.first _ _ h'.openness h'.suffix
  have heq := hle.eq_of_length (Nat.le_antisymm hle.length_le hge.length_le)
  have hstop (body : List Char) : ∀ c ∈ (marks ++ body).head?, schemeChar c = false := by
    intro c hc
    cases hc
    decide
  have hscheme : scheme = scheme' := by
    rw [List.append_assoc, List.append_assoc] at heq
    rw [← (Py.takeWhile_run h.openness.scheme_char (hstop body)).1, heq,
      (Py.takeWhile_run h'.openness.scheme_char (hstop body')).1]
  subst hscheme
  exact ⟨rfl, List.append_cancel_left heq⟩

/-- A text that is a URL goes on as it. -/
theorem UrlOpen.runs {scheme body : List Char} (h : UrlOpen scheme body) :
    UrlRuns (scheme ++ marks ++ body) scheme body :=
  ⟨h, List.suffix_refl _, fun _ _ _ hx => hx⟩

theorem urlChar_of_schemeChar (h : schemeChar c = true) : urlChar c = true := by
  rw [← Bool.not_eq_false]
  intro hno
  rw [(stop_of_url hno).1] at h
  cases h

theorem url_inner {n : Nat} {r x : List Char} (h : url u nested [] a = some (n, r))
    (hno : ¬∃ scheme body, a = scheme ++ marks ++ body ∧ UrlOpen scheme body) :
    ¬∃ scheme body, x ++ a.drop n = scheme ++ marks ++ body ∧ UrlOpen scheme body := by
  rintro ⟨scheme, body, hx, hopen⟩
  obtain ⟨⟨scheme', found⟩, hfound, hnr⟩ := Option.map_eq_some_iff.mp h
  cases hnr
  obtain ⟨hopen', -, rest, rfl⟩ := urlInText_some hfound
  have hdrop : (scheme' ++ marks ++ found ++ rest).drop
      (scheme'.length + 3 + found.length) = rest :=
    List.drop_left' (by simp [marks]; omega)
  rw [hdrop] at hx
  cases rest with
  | nil => exact hno ⟨scheme', found, by simp, hopen'⟩
  | cons c rest =>
    -- the URL ends at a character that goes into no URL
    have hall : ∀ d ∈ scheme ++ marks ++ body, urlChar d = true :=
      List.forall_mem_append.mpr ⟨List.forall_mem_append.mpr
        ⟨fun d hd => urlChar_of_schemeChar (hopen.scheme_char d hd), Py.forall_of_all (by decide)⟩,
        hopen.body_char⟩
    have hmem : c ∈ x ++ c :: rest := by simp
    rw [hx] at hmem
    have hc := urlInText_end hfound c rfl
    rw [hall c hmem] at hc
    cases hc

end Urls

section Params

/-- What begins a parameter. -/
def isSep (c : Char) : Prop := c = '?' ∨ c = '&'

variable {sep : Char} {raw : List Char}

theorem queryParam_some (h : queryParam cs = some (sep, name, raw)) :
    isSep sep ∧ name ≠ [] ∧ (∀ c ∈ name, nameChar c = true) ∧ (∀ c ∈ raw, valueChar c = true) ∧
      ∃ rest, cs = sep :: name ++ '=' :: (raw ++ rest) ∧ ∀ c ∈ rest.head?, valueChar c = false := by
  unfold queryParam at h
  split at h
  · cases h
  · next d cs =>
    split at h
    · next rest hrest =>
      split at h
      · next hcond =>
        cases h
        refine ⟨hcond.1, hcond.2, fun c hc => List.mem_takeWhile_imp hc,
          fun c hc => List.mem_takeWhile_imp hc, rest.dropWhile valueChar, ?_, fun c hc => ?_⟩
        · have hcs := List.takeWhile_append_dropWhile (p := nameChar) (l := cs)
          rw [hrest] at hcs
          simp [hcs]
        · have hstop := List.head?_dropWhile_not valueChar rest
          rw [Option.mem_def.mp hc] at hstop
          exact hstop
      · cases h
    · cases h

theorem queryParam_eq (hsep : isSep sep) (hne : name ≠ []) (hname : ∀ c ∈ name, nameChar c = true)
    (rest : List Char) :
    queryParam (sep :: name ++ '=' :: rest) = some (sep, name, rest.takeWhile valueChar) := by
  obtain ⟨htake, hdrop⟩ := Py.takeWhile_run (b := '=' :: rest) hname (by simp; decide)
  unfold queryParam
  rw [List.cons_append]
  dsimp only
  rw [htake, hdrop]
  exact if_pos ⟨hsep, hne⟩

theorem queryParam_none_of_sep (h : ¬isSep c) (cs : List Char) : queryParam (c :: cs) = none := by
  unfold queryParam
  dsimp only
  split
  · exact if_neg fun hcond => h hcond.1
  · rfl

theorem queryParam_none {d : Char} (hname : ∀ c ∈ name, nameChar c = true) (hd : nameChar d = false)
    (h : ¬(d = '=' ∧ name ≠ [])) (rest : List Char) :
    queryParam (sep :: name ++ d :: rest) = none := by
  obtain ⟨htake, hdrop⟩ := Py.takeWhile_run (b := d :: rest) hname (by simp [hd])
  unfold queryParam
  rw [List.cons_append]
  dsimp only
  rw [htake, hdrop]
  split
  · next heq => exact if_neg fun hcond => h ⟨(List.cons.inj heq).1, hcond.2⟩
  · rfl

theorem queryParam_none_of_name (hname : ∀ c ∈ name, nameChar c = true) :
    queryParam (sep :: name) = none := by
  have hdrop : name.dropWhile nameChar = [] := List.dropWhile_eq_nil_iff.mpr hname
  unfold queryParam
  dsimp only
  rw [hdrop]

theorem param_forward : Py.Forward (param u nested) := fun _ _ => rfl

theorem param_bounded : Py.Bounded (param u nested) := by
  intro before cs n r h
  unfold param at h
  obtain ⟨⟨sep, name, raw⟩, hfound, hnr⟩ := Option.map_eq_some_iff.mp h
  cases hnr
  obtain ⟨-, -, -, -, rest, rfl, -⟩ := queryParam_some hfound
  simp only [List.length_append, List.length_cons]
  omega

theorem sub_param_match {rest : List Char} (hsep : isSep sep) (hne : name ≠ [])
    (hname : ∀ c ∈ name, nameChar c = true) (hraw : ∀ c ∈ raw, valueChar c = true)
    (hrest : ∀ c ∈ rest.head?, valueChar c = false) :
    Py.sub (param u nested) (sep :: name ++ '=' :: (raw ++ rest)) =
      written u nested sep name raw ++ Py.sub (param u nested) rest := by
  have hfound := queryParam_eq hsep hne hname (raw ++ rest)
  rw [(Py.takeWhile_run hraw hrest).1] at hfound
  have hmatch : param u nested [] (sep :: name ++ '=' :: (raw ++ rest)) =
      some (name.length + 2 + raw.length, written u nested sep name raw) := by
    unfold param
    rw [hfound]
    rfl
  have hdrop : (sep :: name ++ '=' :: (raw ++ rest)).drop
      (name.length + 2 + raw.length) = rest := by
    rw [show sep :: name ++ '=' :: (raw ++ rest) = (sep :: name ++ '=' :: raw) ++ rest by simp]
    exact List.drop_left' (by simp; omega)
  rw [param_forward.sub_match param_bounded hmatch, hdrop]

/-- A text that ends in the value of a parameter. -/
structure ValueOpen (sep : Char) (key w : List Char) : Prop where
  sep : isSep sep
  key_ne : key ≠ []
  key_char : ∀ c ∈ key, nameChar c = true
  value_char : ∀ c ∈ w, valueChar c = true

/-- A text that ends in a parameter: in its name or in its value. -/
inductive ParamOpen : List Char → Prop where
  | name {sep : Char} {key : List Char} (hsep : isSep sep) (hkey : ∀ c ∈ key, nameChar c = true) :
      ParamOpen (sep :: key)
  | value {sep : Char} {key w : List Char} (h : ValueOpen sep key w) :
      ParamOpen (sep :: key ++ '=' :: w)

/-- Unless a parameter is open, what follows does not matter. -/
theorem queryParam_append (hne : a ≠ []) (hopen : ¬ParamOpen a) (t : List Char) :
    queryParam (a ++ t) = queryParam a := by
  cases a with
  | nil => exact absurd rfl hne
  | cons sep cs =>
    by_cases hsep : isSep sep
    · rcases Py.run_or_stop nameChar cs with hall | ⟨key, d, rest, rfl, hkey, hd⟩
      · exact absurd (ParamOpen.name hsep hall) hopen
      · have happend : sep :: (key ++ d :: rest) ++ t = sep :: key ++ d :: (rest ++ t) := by simp
        have hcons : sep :: (key ++ d :: rest) = sep :: key ++ d :: rest := rfl
        rw [happend, hcons]
        by_cases hparam : d = '=' ∧ key ≠ []
        · obtain ⟨rfl, hkne⟩ := hparam
          rw [queryParam_eq hsep hkne hkey, queryParam_eq hsep hkne hkey]
          rcases Py.run_or_stop valueChar rest with hw | ⟨w, e, rest', rfl, -, he⟩
          · exact absurd (ParamOpen.value ⟨hsep, hkne, hkey, hw⟩) hopen
          · rw [List.append_assoc, List.cons_append, Py.takeWhile_append_stop he,
              Py.takeWhile_append_stop he]
        · rw [queryParam_none hkey hd hparam, queryParam_none hkey hd hparam]
    · rw [List.cons_append, queryParam_none_of_sep hsep, queryParam_none_of_sep hsep]

theorem valueChar_of_nameChar (h : nameChar c = true) : valueChar c = true := by
  simp only [nameChar, valueChar, Bool.not_eq_true', Bool.or_eq_false_iff, decide_eq_false_iff_not,
    List.mem_cons, List.not_mem_nil, or_false, not_or] at h ⊢
  tauto

theorem stop_of_value (h : valueChar c = false) : nameChar c = false ∧ c ≠ '=' := by
  refine ⟨?_, ?_⟩
  · rw [Bool.eq_false_iff]
    intro hname
    rw [valueChar_of_nameChar hname] at h
    cases h
  · rintro rfl
    exact absurd h (by decide)

theorem queryParam_stop (hname : nameChar c = false) (heq : c ≠ '=') (hvalue : valueChar c = false)
    (hne : a ≠ [])
    (b : List Char) : queryParam (a ++ c :: b) = queryParam a := by
  by_cases hopen : ParamOpen a
  · cases hopen with
    | @name sep key hsep hkey =>
      rw [queryParam_none hkey hname (fun h => heq h.1), queryParam_none_of_name hkey]
    | @value sep key w h =>
      have happend : sep :: key ++ '=' :: w ++ c :: b = sep :: key ++ '=' :: (w ++ c :: b) := by
        simp
      rw [happend, queryParam_eq h.sep h.key_ne h.key_char,
        queryParam_eq h.sep h.key_ne h.key_char, Py.takeWhile_append_stop hvalue]
  · exact queryParam_append hne hopen _

theorem param_barrier (hname : nameChar c = false) (heq : c ≠ '=') (hvalue : valueChar c = false)
    (hsep : ¬isSep c) :
    Py.Barrier (param u nested) c where
  ahead before a b hne := by
    unfold param
    rw [queryParam_stop hname heq hvalue hne]
  here before b := by
    unfold param
    rw [queryParam_none_of_sep hsep]
    rfl
  behind := param_forward.behind c

end Params

section Marks

/-- The characters that begin a query, a parameter or a fragment. -/
def partMarks : List Char := ['?', '&', '#']

theorem hostinfo_mem (h : c ∈ (hostinfo cs).1) : c ∈ cs := by
  have hsuffix := List.rtakeWhile_suffix (· ≠ '@') (l := cs)
  unfold hostinfo at h
  dsimp only at h
  split at h
  · have hdrop := List.mem_of_mem_drop ((List.takeWhile_prefix _).subset h)
    exact hsuffix.subset ((List.dropWhile_suffix _).subset hdrop)
  · exact hsuffix.subset ((List.takeWhile_prefix _).subset h)

theorem hostname_mem (hc : c ∈ partMarks) (h : c ∈ hostname u cs) : c ∈ cs := by
  rcases List.mem_append.mp h with h | h
  · exact (List.takeWhile_prefix _).subset (u.lower_mem c hc _ h)
  · exact (List.dropWhile_suffix _).subset h

theorem redactNetloc_mem {host : List Char} (hnetloc : redactNetloc u cs = some host)
    (hc : c ∈ partMarks) (h : c ∈ host) : c ∈ cs := by
  have hplain : ∀ d ∈ ['[', ']', ':'], c ≠ d := by
    intro d hd heq
    subst heq
    exact absurd hc ((Py.forall_of_all (by decide) : ∀ d ∈ ['[', ']', ':'], d ∉ partMarks) c hd)
  have hname : c ∈ (if ':' ∈ hostname u (hostinfo cs).1 then '[' :: hostname u
      (hostinfo cs).1 ++ [']']
      else hostname u (hostinfo cs).1) → c ∈ cs := by
    intro h
    refine hostinfo_mem (hostname_mem (u := u) hc ?_)
    split at h
    · simpa [hplain '[' (by simp), hplain ']' (by simp)] using h
    · exact h
  unfold redactNetloc at hnetloc
  split at hnetloc
  · cases hnetloc
  · obtain ⟨n, -, hhost⟩ := Option.map_eq_some_iff.mp hnetloc
    cases n with
    | none =>
      subst hhost
      exact hname h
    | some n =>
      subst hhost
      rcases List.mem_append.mp h with h | h
      · exact hname h
      · rcases List.mem_cons.mp h with h | h
        · exact absurd h (hplain ':' (by simp))
        · have hdigit : c.isDigit = true := by
            refine Nat.isDigit_of_mem_toDigits (b := 10) (n := n) (by decide) (by decide) ?_
            simpa using h
          exact absurd hdigit ((Py.forall_of_all (by decide) : ∀ d ∈ partMarks,
            ¬d.isDigit = true) c hc)

theorem hash_not_mem_quotePlus (cs : List Char) : '#' ∉ Percent.quotePlus ['*'] cs := fun h => by
  have hquoted := Percent.mem_quotePlus h
  revert hquoted
  unfold Percent.Quoted
  decide

theorem hash_not_mem_urlencode (q : List (List Char × List Char)) : '#' ∉ urlencode q := by
  intro h
  rcases Py.mem_intercalate h with h | ⟨x, hx, h⟩
  · exact absurd h (by decide)
  · obtain ⟨kv, -, rfl⟩ := List.mem_map.mp hx
    rcases List.mem_append.mp h with h | h
    · exact hash_not_mem_quotePlus _ h
    · rcases List.mem_cons.mp h with h | h
      · exact absurd h (by decide)
      · exact hash_not_mem_quotePlus _ h

theorem mem_urlunsplit {scheme netloc path query : List Char} (hc : c ∈ partMarks)
    (h : c ∈ urlunsplit scheme netloc path query) :
    c ∈ scheme ∨ c ∈ netloc ∨ c ∈ path ∨ (query ≠ [] ∧ (c = '?' ∨ c ∈ query)) := by
  have hcolon : c ≠ ':' := fun heq => absurd (heq ▸ hc) (by decide)
  have hslash : c ≠ '/' := fun heq => absurd (heq ▸ hc) (by decide)
  unfold urlunsplit at h
  grind

theorem toLower_of_mark (h : c.toLower ∈ partMarks) : c.toLower = c := by
  unfold Char.toLower at h ⊢
  split
  · next hup =>
    rw [dif_pos hup] at h
    have hlo : 65 ≤ c.val.toNat := UInt32.le_iff_toNat_le.mp hup.1
    have hhi : c.val.toNat ≤ 90 := UInt32.le_iff_toNat_le.mp hup.2
    have hsum : (c.val + ('a'.val - 'A'.val)).toNat = c.val.toNat + 32 := by
      rw [UInt32.toNat_add]
      exact Nat.mod_eq_of_lt (by show c.val.toNat + 32 < _; omega)
    have hmark := (Py.forall_of_all (by decide) : ∀ d ∈ partMarks, d.val.toNat < 97) _ h
    simp only [hsum] at hmark
    omega
  · rfl

theorem not_mark_of_schemeChar (h : schemeChar c = true) : c ∉ partMarks := fun hc =>
  absurd h ((Py.forall_of_all (by decide) : ∀ d ∈ partMarks, ¬schemeChar d = true) c hc)

theorem conservativeRedact_mem (hc : c ∈ partMarks) (h : c ∈ conservativeRedact cs) :
    c ≠ '#' ∧ c ∈ cs := by
  have hurl : c ∈ Py.sub userinfo (cs.takeWhile (· ≠ '#')) := by
    unfold conservativeRedact at h
    dsimp only at h
    split at h
    · next hquery =>
      rcases List.mem_append.mp h with h | h
      · exact (List.takeWhile_prefix _).subset h
      · rcases List.mem_cons.mp h with rfl | h
        · exact hquery
        · exact absurd h ((Py.forall_of_all (by decide) : ∀ d ∈ partMarks, d ∉ mask) c hc)
    · exact h
  have hkept := mem_sub_userinfo hurl
  exact ⟨by simpa using List.mem_takeWhile_imp hkept, (List.takeWhile_prefix _).subset hkept⟩

/-- A URL written again has no fragment, and a query only if it had one. -/
theorem redactUrl_mem {scheme rest : List Char} (hscheme : ∀ d ∈ scheme, schemeChar d = true)
    (hc : c ∈ partMarks)
    (h : c ∈ redactUrl u nested scheme rest) : c ≠ '#' ∧ (c ∈ rest ∨ '?' ∈ rest) := by
  unfold redactUrl at h
  dsimp only at h
  have htarget {d : Char} (hd : d ∈ (rest.dropWhile (· ∉ ['/', '?', '#'])).takeWhile (· ≠ '#')) :
      d ≠ '#' ∧ d ∈ rest :=
    ⟨by simpa using List.mem_takeWhile_imp hd,
      (List.dropWhile_suffix _).subset ((List.takeWhile_prefix _).subset hd)⟩
  generalize (rest.dropWhile (· ∉ ['/', '?', '#'])).takeWhile (· ≠ '#') = target at h htarget
  split at h
  · next host hhost =>
    rcases mem_urlunsplit hc h with h | h | h | ⟨hne, h⟩
    · obtain ⟨d, hd, rfl⟩ := List.mem_map.mp h
      rw [toLower_of_mark hc] at hc
      exact absurd hc (not_mark_of_schemeChar (hscheme d hd))
    · have hnetloc := redactNetloc_mem hhost hc h
      refine ⟨?_, .inl ((List.takeWhile_prefix _).subset hnetloc)⟩
      have := List.mem_takeWhile_imp hnetloc
      rintro rfl
      simp at this
    · obtain ⟨hhash, hrest⟩ := htarget ((List.takeWhile_prefix _).subset h)
      exact ⟨hhash, .inl hrest⟩
    · have hquery : '?' ∈ rest := by
        by_contra hno
        have hnone : (target.dropWhile (· ≠ '?')) = [] := by
          rw [List.dropWhile_eq_nil_iff]
          intro d hd
          rw [decide_eq_true_eq]
          rintro rfl
          exact hno (htarget hd).2
        rw [Py.partition, hnone] at hne
        exact hne rfl
      refine ⟨?_, .inr hquery⟩
      rintro rfl
      rcases h with h | h
      · exact absurd h (by decide)
      · exact hash_not_mem_urlencode _ h
  · obtain ⟨hhash, hmem⟩ := conservativeRedact_mem hc h
    refine ⟨hhash, .inl ?_⟩
    rcases List.mem_append.mp hmem with hmem | hmem
    · rcases List.mem_append.mp hmem with hmem | hmem
      · exact absurd hc (not_mark_of_schemeChar (hscheme c hmem))
      · exact absurd hmem ((Py.forall_of_all (by decide) : ∀ d ∈ partMarks, d ∉ marks) c hc)
    · exact hmem

theorem mem_splitTrailing (h : c ∈ (splitTrailing cs).1 ∨ c ∈ (splitTrailing cs).2) : c ∈ cs := by
  rcases h with h | h
  · exact (List.rdropWhile_prefix _ _).subset h
  · exact (List.rtakeWhile_suffix _ _).subset h

/-- Where there is neither a `?` nor a `&`, a URL written again brings none. -/
theorem url_plain {n : Nat} {r : List Char} (h : url u nested before cs = some (n, r))
    (hcs : ∀ d ∈ cs.take n, ¬isSep d) : ∀ d ∈ r, ¬isSep d := by
  intro d hd hsep
  obtain ⟨⟨scheme, found⟩, hfound, hnr⟩ := Option.map_eq_some_iff.mp h
  cases hnr
  obtain ⟨hopen, -, rest, rfl⟩ := urlInText_some hfound
  have htake : (scheme ++ marks ++ found ++ rest).take (scheme.length + 3 + found.length) =
      scheme ++ marks ++ found :=
    List.take_left' (by simp [marks]; omega)
  rw [htake] at hcs
  have hno {e : Char} (he : e ∈ found) : ¬isSep e := hcs e (by simp [he])
  have hmark : d ∈ partMarks := by
    rcases hsep with rfl | rfl <;> decide
  rcases List.mem_append.mp hd with hd | hd
  · rcases (redactUrl_mem hopen.scheme_char hmark hd).2 with hd | hquery
    · exact hno (mem_splitTrailing (.inl hd)) hsep
    · exact hno (mem_splitTrailing (.inl hquery)) (.inl rfl)
  · exact hno (mem_splitTrailing (.inr hd)) hsep

theorem count_url (before cs : List Char) (n : Nat) (r : List Char)
    (h : url u nested before cs = some (n, r)) :
    r.count '#' ≤ (cs.take n).count '#' := by
  obtain ⟨⟨scheme, found⟩, hfound, hnr⟩ := Option.map_eq_some_iff.mp h
  cases hnr
  obtain ⟨hopen, -, rest, rfl⟩ := urlInText_some hfound
  have hurl : '#' ∉ redactUrl u nested scheme (splitTrailing found).1 := fun hmem =>
    (redactUrl_mem hopen.scheme_char (by decide) hmem).1 rfl
  have htake : (scheme ++ marks ++ found ++ rest).take (scheme.length + 3 + found.length) =
      scheme ++ marks ++ found :=
    List.take_left' (by simp [marks]; omega)
  have htrail : (splitTrailing found).2.count '#' ≤ found.count '#' :=
    (List.rtakeWhile_suffix _ _).sublist.count_le '#'
  rw [htake, List.count_append, List.count_append, List.count_eq_zero.mpr hurl]
  omega

theorem count_param (before cs : List Char) (n : Nat) (r : List Char)
    (h : param u nested before cs = some (n, r)) :
    r.count '#' ≤ (cs.take n).count '#' := by
  obtain ⟨⟨sep, name, raw⟩, hfound, hnr⟩ := Option.map_eq_some_iff.mp h
  cases hnr
  obtain ⟨hsep, -, hname, hraw, -⟩ := queryParam_some hfound
  have hno {l : List Char} {p : Char → Bool} (hl : ∀ c ∈ l, p c = true)
      (hp : p '#' = false) : '#' ∉ l := by
    intro hmem
    rw [hl '#' hmem] at hp
    cases hp
  have hzero : '#' ∉ written u nested sep name raw := by
    have hsep' : '#' ≠ sep := by rcases hsep with rfl | rfl <;> decide
    have htrail : '#' ∉ (splitValueTrailing raw).2 := fun hmem =>
      hno hraw (by decide) ((List.rtakeWhile_suffix _ _).subset hmem)
    have hmask : '#' ∉ mask := by decide
    unfold written
    dsimp only
    split <;> simp [hsep', hno hname (by decide), hno hraw (by decide), htrail, hmask]
  rw [List.count_eq_zero.mpr hzero]
  exact Nat.zero_le _

end Marks

theorem count_userinfo (before cs : List Char) (n : Nat) (r : List Char)
    (h : userinfo before cs = some (n, r)) :
    r.count '#' ≤ (cs.take n).count '#' := by
  rw [(userinfo_some h).1]
  exact Nat.zero_le _

/-- Before a query, either the text is rewritten on its own, or a URL is open. -/
theorem sub_url_query (a : List Char) :
    ((∀ scheme body, ¬UrlRuns a scheme body) ∧
      ∀ t, Py.sub (url u nested) (a ++ '?' :: t) =
        Py.sub (url u nested) a ++ Py.sub (url u nested) ('?' :: t)) ∨
      ∃ a₁ scheme body z, a = a₁ ++ (scheme ++ marks ++ body) ∧ UrlRuns a scheme body ∧
        z.count '#' ≤ a₁.count '#' ∧ ((∀ c ∈ a₁, ¬isSep c) → ∀ c ∈ z, ¬isSep c) ∧
        ∀ t, Py.sub (url u nested) (a ++ '?' :: t) =
          z ++ Py.sub (url u nested) (scheme ++ marks ++ body ++ '?' :: t) := by
  have hcross (a t : List Char) (hne : a ≠ [])
      (hopen : ¬∃ scheme body, a = scheme ++ marks ++ body ∧ UrlOpen scheme body) :
      url u nested [] (a ++ '?' :: t) = url u nested [] a := by
    unfold url
    rw [urlInText_append (by decide) (by decide) (by decide) hne]
    intro scheme rest ha hscheme
    rcases Py.run_or_stop urlChar rest with hall | ⟨run, c, rest', rfl, -, hc⟩
    · exact absurd ⟨scheme, rest, ha, hscheme.letter, hscheme.scheme_char, hall⟩ hopen
    · rw [List.append_assoc, List.cons_append, Py.takeWhile_append_stop hc,
        Py.takeWhile_append_stop hc]
  have hnil : ¬∃ scheme body, [] = scheme ++ marks ++ body ∧ UrlOpen scheme body := by
    rintro ⟨scheme, body, h, -⟩
    simp [marks] at h
  rcases url_forward.sub_cross url_bounded hnil hcross (fun a n r h hno x _ _ => url_inner h hno)
      (fun cs n r h => count_url [] cs n r h) (fun cs n r h => url_plain h) a with
    ⟨hno, hsplit⟩ | ⟨a₁, a₂, z, rfl, ⟨scheme, body, rfl, hopen⟩, hfirst, hz, hplain, hsub⟩
  · exact .inl ⟨fun scheme body h => hno _ h.suffix ⟨scheme, body, rfl, h.openness⟩, hsplit⟩
  · exact .inr ⟨a₁, scheme, body, z, rfl, ⟨hopen, List.suffix_append .., fun scheme' body' h hx =>
      hfirst _ hx ⟨scheme', body', rfl, h⟩⟩, hz, hplain, hsub⟩

theorem ParamOpen.tail {a : List Char} (h : ParamOpen a) : ∀ c ∈ a.tail, valueChar c = true := by
  cases h with
  | name _ hkey => exact fun c hc => valueChar_of_nameChar (hkey c hc)
  | value h =>
    exact List.forall_mem_append.mpr ⟨fun c hc => valueChar_of_nameChar (h.key_char c hc),
      List.forall_mem_cons.mpr ⟨by decide, h.value_char⟩⟩

theorem param_inner {n : Nat} {r x : List Char} (h : param u nested [] a = some (n, r))
    (hno : ¬∃ sep key w, a = sep :: key ++ '=' :: w ∧ ValueOpen sep key w) (hne : x ≠ []) :
    ¬ParamOpen (x ++ a.drop n) := by
  intro hopen
  obtain ⟨⟨sep, name, raw⟩, hfound, hnr⟩ := Option.map_eq_some_iff.mp h
  cases hnr
  obtain ⟨hsep, hname_ne, hname, hraw, rest, rfl, hrest⟩ := queryParam_some hfound
  have hdrop : (sep :: name ++ '=' :: (raw ++ rest)).drop
      (name.length + 2 + raw.length) = rest := by
    rw [show sep :: name ++ '=' :: (raw ++ rest) = (sep :: name ++ '=' :: raw) ++ rest by simp]
    exact List.drop_left' (by simp; omega)
  rw [hdrop] at hopen
  cases rest with
  | nil => exact hno ⟨sep, name, raw, by simp, hsep, hname_ne, hname, hraw⟩
  | cons c rest =>
    -- the value ends at a character that goes into no name and no value
    have hmem : c ∈ (x ++ c :: rest).tail := by
      cases x with
      | nil => exact absurd rfl hne
      | cons d x => simp
    have hc := hrest c rfl
    rw [hopen.tail c hmem] at hc
    cases hc

/-- Before a query, either the text is rewritten on its own, or a parameter is open. -/
theorem sub_param_query (a : List Char) :
    ((∀ x, x <:+ a → ¬ParamOpen x) ∧ ∀ t, Py.sub (param u nested) (a ++ '?' :: t) =
      Py.sub (param u nested) a ++ Py.sub (param u nested) ('?' :: t)) ∨
      ∃ a₁ a₂ z, a = a₁ ++ a₂ ∧ ParamOpen a₂ ∧ (∀ x, x <:+ a → ParamOpen x → x <:+ a₂) ∧
        ∀ t, Py.sub (param u nested) (a ++ '?' :: t) =
        z ++ Py.sub (param u nested) (a₂ ++ '?' :: t) := by
  have hcross (a t : List Char) (hne : a ≠ []) (hopen : ¬ParamOpen a) :
      param u nested [] (a ++ '?' :: t) = param u nested [] a := by
    unfold param
    rw [queryParam_append hne hopen]
  have hnil : ¬ParamOpen [] := by
    intro h
    cases h
  have hinner (a : List Char) (n : Nat) (r : List Char) (h : param u nested [] a = some (n, r))
      (hno : ¬ParamOpen a) (x : List Char) (hne : x ≠ []) (_ : x <:+ a.take n) : ¬ParamOpen
        (x ++ a.drop n) := by
    refine param_inner h ?_ hne
    rintro ⟨sep, key, w, rfl, hvalue⟩
    exact hno (.value hvalue)
  rcases param_forward.sub_cross param_bounded hnil hcross hinner
      (fun cs n r h => count_param [] cs n r h) (P := fun _ => True)
        (fun _ _ _ _ _ _ _ => trivial) a with
    hsplit | ⟨a₁, a₂, z, ha, hopen, hfirst, -, -, hsub⟩
  · exact .inl hsplit
  · exact .inr ⟨a₁, a₂, z, ha, hopen, hfirst, hsub⟩

/-- A text is redacted word by word. -/
theorem redactWith_space (hc : Py.isSpace c = true) (a b : List Char) :
    redactWith u nested (a ++ c :: b) = redactWith u nested a ++ c :: redactWith u nested b := by
  have hplain : c ∉ [':', '/', '=', '?', '&'] := fun hmem =>
    absurd hc ((Py.forall_of_all (by decide) : ∀ d ∈ [':', '/', '=', '?', '&'],
      ¬Py.isSpace d = true) c hmem)
  simp only [List.mem_cons, List.not_mem_nil, or_false, not_or] at hplain
  obtain ⟨hcolon, hslash, heq, hquestion, hamp⟩ := hplain
  have huser : Py.Barrier userinfo c := userinfo_barrier (by simp [userinfoChar, hc]) hcolon hslash
  have hurl : Py.Barrier (url u nested) c :=
    url_barrier (schemeChar_of_isSpace hc) hcolon hslash (by simp [urlChar, hc])
  have hparam : Py.Barrier (param u nested) c :=
    param_barrier (by simp [nameChar, hc]) heq
      (by simp [valueChar, hc]) fun h => h.elim hquestion hamp
  unfold redactWith
  rw [huser.sub_append userinfo_bounded, hurl.sub_append url_bounded,
    hparam.sub_append param_bounded]

end Redaction
end InferenceEngine
