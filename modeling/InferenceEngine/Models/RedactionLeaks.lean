import InferenceEngine.Models.RedactionSecrecy

/-!
# Models.RedactionLeaks

For every text around a parameter, two values of it are told apart. A quote at the start of a value
ends the URL that is open there; what follows the quote may be a URL again, which is rewritten and
goes on over a `&` or a `#` after the value. Of two given values it is said when they are not.

* `sub_url_quote`, `sub_param_quote`: what the passes do on both sides of the quote.
* `told_apart`: one value that is a single letter, and one that is a URL.
* `alike_iff`, `alike_of_url`: two values without `://`, where no URL goes on over the parameter, and
  where one does.
* `redacted_alike`: these together, and the userinfo of a URL.
-/

namespace InferenceEngine
namespace Redaction

variable {u : Unicode} {nested : List Char → List Char} {a name q t : List Char} {c : Char}

section Stops

/-- No parameter goes over the end of a value. -/
theorem EndsValue.sub_param_append (h : EndsValue q) (a : List Char) :
    Py.sub (param u nested) (a ++ q) = Py.sub (param u nested) a ++ Py.sub (param u nested) q := by
  cases q with
  | nil => simp [Py.sub, Py.subFrom]
  | cons c q =>
    have hc : valueChar c = false := h c rfl
    obtain ⟨hname, heq⟩ := stop_of_value hc
    refine param_forward.sub_append param_bounded fun a' hne => ?_
    unfold param
    rw [queryParam_stop hname heq hc hne]

theorem sub_param_head (c : Char) (t : List Char) :
    ∃ r, Py.sub (param u nested) (c :: t) = c :: r := by
  cases hfound : queryParam (c :: t) with
  | none =>
    refine ⟨_, param_forward.sub_none ?_⟩
    unfold param
    rw [hfound]
    rfl
  | some x =>
    obtain ⟨sep, key, raw⟩ := x
    obtain ⟨hsep, hne, hkey, hraw, rest, htext, hrest⟩ := queryParam_some hfound
    obtain rfl : c = sep := (List.cons.inj htext).1
    rw [htext, sub_param_match hsep hne hkey hraw hrest]
    unfold written
    dsimp only
    split <;> exact ⟨_, rfl⟩

theorem EndsValue.param (h : EndsValue q) : EndsValue (Py.sub (param u nested) q) := by
  cases q with
  | nil => exact h
  | cons c q =>
    obtain ⟨r, hr⟩ := @sub_param_head u nested c q
    rw [hr]
    exact h

theorem sub_url_append (h : ∀ c ∈ q.head?, urlChar c = false) (a : List Char) :
    Py.sub (url u nested) (a ++ q) = Py.sub (url u nested) a ++ Py.sub (url u nested) q := by
  cases q with
  | nil => simp [Py.sub, Py.subFrom]
  | cons c q =>
    have hc : urlChar c = false := h c rfl
    obtain ⟨hscheme, hcolon, hslash⟩ := stop_of_url hc
    refine url_forward.sub_append url_bounded fun a' hne => ?_
    unfold url
    rw [urlInText_append hscheme hcolon hslash hne fun _ rest _ _ => Py.takeWhile_append_stop hc rest q]

end Stops

section Quote

/-- The first two passes go on after a `?` and a quote as at the start of a text. -/
theorem sub_url_quote (a t : List Char) :
    Py.sub (url u nested) (Py.sub userinfo (a ++ '?' :: '\'' :: t)) =
      Py.sub (url u nested) (Py.sub userinfo a ++ ['?']) ++ '\'' :: Py.sub (url u nested)
      (Py.sub userinfo t) := by
  have huser := userinfo_barrier (c := '?') (by decide) (by decide) (by decide)
  have hurl := @url_barrier u nested '\'' (by decide) (by decide) (by decide) (by decide)
  rw [huser.sub_append userinfo_bounded, sub_userinfo_cons (by decide) (by decide),
    List.append_cons, hurl.sub_append url_bounded]

/-- Before a quote, either the text is rewritten on its own, or a value is open. -/
theorem sub_param_quote (a : List Char) :
    (∀ t, Py.sub (param u nested) (a ++ '\'' :: t) =
      Py.sub (param u nested) a ++ '\'' :: Py.sub (param u nested) t) ∨
      ∃ z sep key w, ValueOpen sep key w ∧ ∀ t, Py.sub (param u nested) (a ++ '\'' :: t) =
        z ++ Py.sub (param u nested) (sep :: key ++ '=' :: (w ++ '\'' :: t)) := by
  let Crosses (a : List Char) : Prop :=
    ∃ sep key w, a = sep :: key ++ '=' :: w ∧ ValueOpen sep key w
  have hcross (a t : List Char) (hne : a ≠ []) (hopen : ¬Crosses a) :
      param u nested [] (a ++ '\'' :: t) = param u nested [] a := by
    unfold param
    by_cases hparam : ParamOpen a
    · cases hparam with
      | name hsep hkey =>
        rw [queryParam_none hkey (by decide) (fun h => absurd h.1 (by decide)),
          queryParam_none_of_name hkey]
      | value h => exact absurd ⟨_, _, _, rfl, h⟩ hopen
    · rw [queryParam_append hne hparam]
  have hnil : ¬Crosses [] := by
    rintro ⟨sep, key, w, h, -⟩
    cases h
  have hinner (a : List Char) (n : Nat) (r : List Char) (h : param u nested [] a = some (n, r))
      (hno : ¬Crosses a) (x : List Char) (hne : x ≠ []) (_ : x <:+ a.take n) : ¬Crosses
        (x ++ a.drop n) := by
    rintro ⟨sep, key, w, hx, hvalue⟩
    exact param_inner h hno hne (hx ▸ .value hvalue)
  rcases param_forward.sub_cross param_bounded hnil hcross hinner
      (fun cs n r h => count_param [] cs n r h)
      (P := fun _ => True) (fun _ _ _ _ _ _ _ => trivial) a with
    ⟨-, hsplit⟩ | ⟨a₁, a₂, z, rfl, ⟨sep, key, w, rfl, hvalue⟩, -, -, -, hsub⟩
  · refine .inl fun t => ?_
    have hquote : param u nested [] ('\'' :: t) = none := by
      unfold param
      rw [queryParam_none_of_sep (by unfold isSep; decide)]
      rfl
    rw [hsplit, param_forward.sub_none hquote]
  · refine .inr ⟨z, sep, key, w, hvalue, fun t => ?_⟩
    rw [hsub]
    simp

theorem written_eq (sep : Char) (key raw : List Char) :
    ∃ kept, written u nested sep key raw = sep :: key ++ '=' :: kept ∧
      (kept = raw ∨ kept = mask ++ (splitValueTrailing raw).2) := by
  unfold written
  dsimp only
  split
  · exact ⟨_, by simp, .inr rfl⟩
  · exact ⟨raw, rfl, .inl rfl⟩

theorem mem_splitValueTrailing {raw : List Char} (h : c ∈ (splitValueTrailing raw).2) :
    c ∈ raw ∧ c ∈ closers :=
  ⟨(List.rtakeWhile_suffix _ _).subset h, by simpa using List.mem_rtakeWhile_imp h⟩

theorem letter_not_mem {raw : List Char} (hmask : c ∉ mask) (hclosers : c ∉ closers) :
    c ∉ mask ++ (splitValueTrailing raw).2 := by
  intro h
  rcases List.mem_append.mp h with h | h
  · exact hmask h
  · exact hclosers (mem_splitValueTrailing h).2

/-- What is left of a value that is open at the end of a text, when it goes on in `t`. -/
theorem sub_param_open {sep : Char} {key w : List Char} (h : ValueOpen sep key w) (t : List Char) :
    ∃ kept, (∀ c ∈ kept, valueChar c = true) ∧
      (kept = w ++ t.takeWhile valueChar ∨
        kept = mask ++ (splitValueTrailing (w ++ t.takeWhile valueChar)).2) ∧
      Py.sub (param u nested) (sep :: key ++ '=' :: (w ++ t)) =
        sep :: key ++ '=' :: (kept ++ Py.sub (param u nested) (t.dropWhile valueChar)) := by
  have hraw : ∀ c ∈ w ++ t.takeWhile valueChar, valueChar c = true :=
    List.forall_mem_append.mpr ⟨h.value_char, fun c hc => List.mem_takeWhile_imp hc⟩
  have hrest (c : Char) (hc : c ∈ (t.dropWhile valueChar).head?) : valueChar c = false := by
    have hstop := List.head?_dropWhile_not valueChar t
    rw [Option.mem_def.mp hc] at hstop
    exact hstop
  have hmatch := @sub_param_match u nested key sep _ _ h.sep h.key_ne h.key_char hraw hrest
  rw [List.append_assoc, List.takeWhile_append_dropWhile] at hmatch
  obtain ⟨kept, hkept, hor⟩ := @written_eq u nested sep key (w ++ t.takeWhile valueChar)
  refine ⟨kept, ?_, hor, by rw [hmatch, hkept]; simp⟩
  rcases hor with rfl | rfl
  · exact hraw
  · exact List.forall_mem_append.mpr ⟨fun c hc => (mask_value c hc).1, fun c hc =>
      hraw c (mem_splitValueTrailing hc).1⟩

theorem dropWhile_ends (t : List Char) : EndsValue (t.dropWhile valueChar) := by
  intro c hc
  have hstop := List.head?_dropWhile_not valueChar t
  rw [Option.mem_def.mp hc] at hstop
  exact hstop

/-- After a quote, the letter `a` and a text that begins with `x` are told apart: if some of the
text is split off the value that it ends, or if another rest is left. -/
theorem sub_param_quote_ne (a : List Char) {r : List Char} (hr : EndsValue r)
    (hlast : (∀ w, (splitValueTrailing (w ++ ('\'' :: 'x' :: t).takeWhile valueChar)).2 ≠ []) ∨
      Py.sub (param u nested) r ≠
      Py.sub (param u nested) (('\'' :: 'x' :: t).dropWhile valueChar)) :
    Py.sub (param u nested) (a ++ '\'' :: 'a' :: r) ≠
      Py.sub (param u nested) (a ++ '\'' :: 'x' :: t) := by
  intro heq
  rcases @sub_param_quote u nested a with hsplit | ⟨z, sep, key, w, hvalue, hsub⟩
  · obtain ⟨r₁, hr₁⟩ := @sub_param_head u nested 'a' r
    obtain ⟨r₂, hr₂⟩ := @sub_param_head u nested 'x' t
    rw [hsplit, hsplit, hr₁, hr₂] at heq
    have htail := (List.cons.inj (List.append_cancel_left heq)).2
    exact absurd (List.cons.inj htail).1 (by decide)
  · have hletters : ∀ c ∈ ['\'', 'a'], valueChar c = true := Py.forall_of_all (by decide)
    obtain ⟨htake, hdrop⟩ := Py.takeWhile_run hletters hr
    obtain ⟨kept, hall, hkept, hleft⟩ := @sub_param_open u nested _ _ _ hvalue (['\'', 'a'] ++ r)
    obtain ⟨kept', hall', hkept', hright⟩ :=
      @sub_param_open u nested _ _ _ hvalue ('\'' :: 'x' :: t)
    rw [htake] at hkept
    rw [hdrop] at hleft
    have hshape : '\'' :: 'a' :: r = ['\'', 'a'] ++ r := rfl
    rw [hsub, hsub, hshape, hleft, hright] at heq
    have hrest := (List.cons.inj (List.append_cancel_left (List.append_cancel_left heq))).2
    have hends := @EndsValue.param u nested _ (dropWhile_ends ('\'' :: 'x' :: t))
    obtain ⟨hkeep, hafter⟩ := Py.takeWhile_run hall (@EndsValue.param u nested _ hr)
    obtain ⟨hkeep', hafter'⟩ := Py.takeWhile_run hall' hends
    rw [hrest, hkeep'] at hkeep
    rw [hrest, hafter'] at hafter
    have hx : ('\'' :: 'x' :: t).takeWhile valueChar = '\'' :: 'x' :: t.takeWhile valueChar := by
      rw [List.takeWhile_cons_of_pos (by decide), List.takeWhile_cons_of_pos (by decide)]
    rcases hkept with rfl | rfl <;> rcases hkept' with rfl | rfl
    · rw [hx] at hkeep
      have htail := (List.cons.inj (List.append_cancel_left hkeep)).2
      exact absurd (List.cons.inj htail).1 (by decide)
    · have hmem : 'a' ∈ w ++ ['\'', 'a'] := by simp
      rw [← hkeep] at hmem
      exact absurd hmem (letter_not_mem (by decide) (by decide))
    · have hmem : 'x' ∈ w ++ ('\'' :: 'x' :: t).takeWhile valueChar := by simp [hx]
      rw [hkeep] at hmem
      exact absurd hmem (letter_not_mem (by decide) (by decide))
    · have hnone : (splitValueTrailing (w ++ ['\'', 'a'])).2 = [] := by
        have hend := (Py.rdropWhile_append (p := fun c => decide (c ∈ closers))
            (a := w ++ ['\'', 'a']) (by simp) (by simp [closers]) []).2
        rwa [List.append_nil] at hend
      rw [hnone] at hkeep
      rcases hlast with hsome | hother
      · exact hsome w (List.append_cancel_left hkeep)
      · exact hother hafter.symm

end Quote

section Tails

/-- A value that is a URL with an escaped full stop at its end. -/
def dotted : List Char := 'x' :: ":///?=%2E".toList

/-- A value that is a URL with a port that is no number. -/
def unread : List Char := 'x' :: "://h:a?".toList

theorem EndsValue.quiet (h : EndsValue q) : ∀ c ∈ q.head?, c ≠ ':' ∧ c ≠ '/' :=
  fun c hc => (delimiter_of_value (h c hc)).2

theorem sub_userinfo_eq_self (h : '@' ∉ a) : Py.sub userinfo a = a := by
  refine Py.sub_eq_self fun a₁ a₂ ha _ => ?_
  have hrun : (a₂.takeWhile userinfoChar).rdropWhile (· ≠ '@') = [] := by
    rw [List.rdropWhile_eq_nil_iff]
    intro c hc
    rw [decide_eq_true_eq]
    rintro rfl
    exact h (ha ▸ List.mem_append_right a₁ ((List.takeWhile_prefix _).subset hc))
  unfold userinfo
  dsimp only
  rw [hrun, if_neg fun hcond => hcond.2 rfl]

/-- The first pass keeps a text with no `@` before its query and no `://` in it. -/
theorem sub_userinfo_tail {before after : List Char} (hbefore : '@' ∉ before)
    (hafter : ¬marks <:+: after) (hq : EndsValue q) :
    Py.sub userinfo (before ++ '?' :: after ++ q) = before ++ '?' :: after ++
      Py.sub userinfo q := by
  have hbarrier := userinfo_barrier (c := '?') (by decide) (by decide) (by decide)
  rw [List.append_assoc, List.cons_append, hbarrier.sub_append userinfo_bounded,
    sub_userinfo_eq_self hbefore, sub_userinfo_quiet hafter hq.quiet]
  simp

theorem redactNetloc_unread : redactNetloc u "h:a".toList = none := by
  unfold redactNetloc
  split
  · rfl
  · rfl

theorem redactNetloc_nil : redactNetloc u [] = some [] := by
  have hname : hostname u (hostinfo []).1 = [] := by
    show u.lower [] ++ [] = []
    rw [u.lower_nil, List.append_nil]
  unfold redactNetloc
  rw [if_neg (by rw [u.rejects_nil]; decide)]
  dsimp only
  rw [hname]
  rfl

theorem redactUrl_dotted (hdot : nested ['.'] = ['.']) :
    redactUrl u nested ['x'] "/?=%2E".toList = 'x' :: ":/?=.".toList := by
  have hquery : parseQsl (Py.partition '?' "/?=%2E".toList).2 = [([], ['.'])] := by decide +kernel
  have hplain : isSensitive u [] = false := by
    unfold isSensitive
    rw [u.lower_nil]
    decide
  have hshown : [([], ['.'])].map (shown u nested) = [([], ['.'])] := by
    rw [List.map_singleton, shown, if_neg (by rw [hplain]; decide), hdot]
  have hnetloc : "/?=%2E".toList.takeWhile (· ∉ ['/', '?', '#']) = [] := by decide
  have htarget : ("/?=%2E".toList.dropWhile (· ∉ ['/', '?', '#'])).takeWhile (· ≠ '#') =
      "/?=%2E".toList := by
    decide
  unfold redactUrl
  dsimp only
  rw [hnetloc, htarget, redactNetloc_nil, hquery]
  dsimp only
  rw [hshown]
  decide +kernel

theorem redactUrl_unread (rest : List Char) :
    redactUrl u nested ['x'] ("h:a".toList ++ '?' :: rest) = 'x' :: "://h:a?***".toList := by
  have hnetloc : ("h:a".toList ++ '?' :: rest).takeWhile (· ∉ ['/', '?', '#']) = "h:a".toList :=
    Py.takeWhile_append_stop (by decide) _ _
  have hcut := @conservativeRedact_query (['x'] ++ marks ++ "h:a".toList) (by decide) rest
  rw [List.append_assoc (['x'] ++ marks)] at hcut
  unfold redactUrl
  dsimp only
  rw [hnetloc, redactNetloc_unread]
  dsimp only
  rw [hcut]
  decide +kernel

theorem sub_url_dotted (hdot : nested ['.'] = ['.']) (hq : EndsValue q)
    (hstop : ∀ c ∈ q.head?, urlChar c = false) :
    Py.sub (url u nested) (Py.sub userinfo (dotted ++ q)) =
      'x' :: ":/?=.".toList ++ Py.sub (url u nested) (Py.sub userinfo q) := by
  have huser := @sub_userinfo_tail q ('x' :: ":///".toList) "=%2E".toList (by decide) (by decide) hq
  have hshape : dotted ++ q = 'x' :: ":///".toList ++ '?' :: "=%2E".toList ++ q := rfl
  have hchars : ∀ c ∈ "/?=%2E".toList, urlChar c = true := Py.forall_of_all (by decide)
  have hstop' : ∀ c ∈ (Py.sub userinfo q).head?, urlChar c = false := by
    cases q with
    | nil => exact hstop
    | cons c q =>
      obtain ⟨hcolon, hslash⟩ := hq.quiet c rfl
      rw [sub_userinfo_cons hcolon hslash]
      exact hstop
  obtain ⟨htake, -⟩ := Py.takeWhile_run hchars hstop'
  have hopen : UrlOpen ['x'] (("/?=%2E".toList ++ Py.sub userinfo q).takeWhile urlChar) := by
    rw [htake]
    exact ⟨by decide, Py.forall_of_all (by decide), hchars⟩
  have hfound := urlInText_open hopen (by rw [htake]; decide)
  rw [htake] at hfound
  have hmatch := @sub_url_match u nested _ _ (Py.sub userinfo q)
      (by rw [List.append_assoc]; exact hfound)
  have hsplit : splitTrailing "/?=%2E".toList = ("/?=%2E".toList, []) := by decide
  rw [hsplit] at hmatch
  dsimp only at hmatch
  rw [redactUrl_dotted hdot, List.append_nil] at hmatch
  rw [hshape, huser]
  exact hmatch

/-- What follows up to the end of the URL is masked with its query. -/
theorem sub_url_unread (hq : EndsValue q) :
    ∃ trail, (∀ c ∈ trail, valueChar c = true) ∧
      Py.sub (url u nested) (Py.sub userinfo (unread ++ q)) =
      'x' :: "://h:a?***".toList ++ trail ++ Py.sub (url u nested)
      ((Py.sub userinfo q).dropWhile urlChar) := by
  have huser := @sub_userinfo_tail q ('x' :: "://h:a".toList) [] (by decide) (by decide) hq
  have hshape : unread ++ q = 'x' :: "://h:a".toList ++ '?' :: [] ++ q := rfl
  have hopen : UrlOpen ['x'] "h:a".toList :=
    ⟨by decide, Py.forall_of_all (by decide), Py.forall_of_all (by decide)⟩
  have hurl := @sub_url_open u nested _ _ hopen (Py.sub userinfo q)
  generalize (Py.sub userinfo q).takeWhile urlChar = run at hurl
  have hlast : ∀ c ∈ ("h:a".toList ++ ['?']).getLast?, decide (c ∈ punctuation) = false :=
    Py.forall_of_all_option (by decide)
  obtain ⟨hdrop, htake⟩ := Py.rdropWhile_append (by decide) hlast run
  have hsplit : splitTrailing ("h:a".toList ++ '?' :: run) =
      ("h:a".toList ++ '?' :: (splitTrailing run).1, (splitTrailing run).2) := by
    rw [List.append_cons]
    exact Prod.ext (by rw [List.append_cons "h:a".toList]; exact hdrop) htake
  refine ⟨(splitTrailing run).2, fun c hc => ?_, ?_⟩
  · have hmem : c ∈ punctuation := by simpa using List.mem_rtakeWhile_imp hc
    exact (Py.forall_of_all (by decide) : ∀ d ∈ punctuation, valueChar d = true) c hmem
  · rw [hsplit, redactUrl_unread] at hurl
    rw [hshape, huser]
    exact hurl

end Tails

section Pairs

/-- A value that begins with a `?` and a quote. -/
def quoted (value : List Char) : List Char := '?' :: '\'' :: value

theorem Sensitive.quoted (h : Sensitive u name) {value : List Char}
    (hchar : ∀ c ∈ value, valueChar c = true) (hend : ∀ c ∈ (Redaction.quoted value).getLast?,
      c ∉ closers) : Credential u name (Redaction.quoted value) where
  toSensitive := h
  value_ne := by simp [Redaction.quoted]
  value_char := List.forall_mem_cons.mpr ⟨by decide, List.forall_mem_cons.mpr ⟨by decide, hchar⟩⟩
  value_end := hend

theorem redactWith_quoted (p name value q : List Char) :
    redactWith u nested (p ++ query name (quoted value) ++ q) =
      Py.sub (param u nested)
      (Py.sub (url u nested) (Py.sub userinfo (p ++ '?' :: (name ++ ['='])) ++ ['?']) ++
        '\'' :: Py.sub (url u nested) (Py.sub userinfo (value ++ q))) := by
  have hshape : p ++ query name (quoted value) ++ q =
      p ++ '?' :: (name ++ ['=']) ++ '?' :: '\'' :: (value ++ q) := by
    simp [query, quoted]
  unfold redactWith
  rw [hshape, sub_url_quote]

/-- What the first two passes leave of a letter. -/
theorem sub_url_letter (hq : EndsValue q) :
    Py.sub (url u nested) (Py.sub userinfo ('a' :: q)) =
      'a' :: Py.sub (url u nested) (Py.sub userinfo q) := by
  rw [sub_userinfo_cons (by decide) (by decide)]
  exact sub_url_quiet (a := ['a']) (by decide) fun c hc => delimiter_of_value (hq.userinfo c hc)

/-- Of a text that a URL runs into, the part in the URL is left out after it. -/
theorem sub_param_rest_ne (hq : EndsValue q) (hrun : ∃ c ∈ q.head?, urlChar c = true)
    {t : List Char} (ht : ∀ c ∈ t, valueChar c = true) :
    Py.sub (param u nested) (Py.sub (url u nested) q) ≠
      Py.sub (param u nested)
      ((t ++ Py.sub (url u nested) (q.dropWhile urlChar)).dropWhile valueChar) := by
  obtain ⟨c, hc, hurl⟩ := hrun
  obtain ⟨q, rfl⟩ : ∃ q', q = c :: q' := by
    cases q with
    | nil => cases hc
    | cons d q => exact ⟨q, by rw [Option.some.inj hc]⟩
  obtain ⟨hscheme, hcolon, -⟩ := delimiter_of_value (hq c rfl)
  have hstop (d : Char) (hd : d ∈ ((c :: q).dropWhile urlChar).head?) : urlChar d = false := by
    have hno := List.head?_dropWhile_not urlChar (c :: q)
    rw [Option.mem_def.mp hd] at hno
    exact hno
  have hsplit := @sub_url_append u nested _ hstop ((c :: q).takeWhile urlChar)
  rw [List.takeWhile_append_dropWhile] at hsplit
  rw [hsplit, List.dropWhile_append_of_pos ht]
  generalize Py.sub (url u nested) ((c :: q).dropWhile urlChar) = rest
  have hhead : ∃ run, Py.sub (url u nested) ((c :: q).takeWhile urlChar) = c :: run := by
    rw [List.takeWhile_cons_of_pos hurl]
    exact ⟨_, sub_url_cons hscheme hcolon _⟩
  obtain ⟨run, hrun⟩ := hhead
  have hafter := @EndsValue.sub_param_append u nested _ (dropWhile_ends rest)
      (c :: run ++ rest.takeWhile valueChar)
  rw [List.append_assoc, List.takeWhile_append_dropWhile] at hafter
  obtain ⟨left, hleft⟩ := @sub_param_head u nested c (run ++ rest.takeWhile valueChar)
  rw [hrun, hafter, List.cons_append, hleft]
  intro heq
  have hlen := congrArg List.length heq
  rw [List.length_append, List.length_cons] at hlen
  omega

/-- For every text around a parameter of a sensitive name, two values of it are told apart. -/
theorem told_apart (h : Sensitive u name) (p : List Char) (hq : EndsValue q) :
    ∃ value value', Credential u name value ∧ Credential u name value' ∧
      redactUrlsInText u (p ++ query name value ++ q) ≠
      redactUrlsInText u (p ++ query name value' ++ q) := by
  have hletter : Credential u name (quoted ['a']) :=
    h.quoted (Py.forall_of_all (by decide)) (Py.forall_of_all_option (by decide))
  have hrest : EndsValue (Py.sub (url u (nested u maxNesting)) (Py.sub userinfo q)) :=
    hq.userinfo.url
  by_cases hstop : ∀ c ∈ q.head?, urlChar c = false
  · refine ⟨quoted ['a'], quoted dotted, hletter,
      h.quoted (Py.forall_of_all (by decide)) (Py.forall_of_all_option (by decide)), ?_⟩
    have hdot : nested u maxNesting ['.'] = ['.'] := rfl
    unfold redactUrlsInText
    rw [redactWith_quoted, redactWith_quoted, List.singleton_append, sub_url_letter hq,
      sub_url_dotted hdot hq hstop]
    refine sub_param_quote_ne _ hrest (.inl fun w => ?_)
    have hchars : ∀ c ∈ '\'' :: 'x' :: ":/?=.".toList, valueChar c = true :=
      Py.forall_of_all (by decide)
    have htake := (Py.takeWhile_run hchars hrest).1
    have hshape : w ++ '\'' :: 'x' :: ":/?=.".toList = w ++ '\'' :: 'x' :: ":/?=".toList ++
        ['.'] := by simp
    have hlast : (splitValueTrailing (w ++ '\'' :: 'x' :: ":/?=.".toList)).2 ≠ [] := by
      unfold splitValueTrailing
      rw [hshape, List.rtakeWhile_concat_pos _ _ _ (by decide)]
      simp
    rw [← htake] at hlast
    exact hlast
  · refine ⟨quoted ['a'], quoted unread, hletter,
      h.quoted (Py.forall_of_all (by decide)) (Py.forall_of_all_option (by decide)), ?_⟩
    obtain ⟨trail, htrail, hunread⟩ := @sub_url_unread u (nested u maxNesting) q hq
    unfold redactUrlsInText
    rw [redactWith_quoted, redactWith_quoted, List.singleton_append, sub_url_letter hq, hunread]
    refine sub_param_quote_ne _ hrest (.inr ?_)
    have hrun : ∃ c ∈ (Py.sub userinfo q).head?, urlChar c = true := by
      cases q with
      | nil => exact absurd (fun c hc => by cases hc) hstop
      | cons c q =>
        obtain ⟨hcolon, hslash⟩ := hq.quiet c rfl
        refine ⟨c, by rw [sub_userinfo_cons hcolon hslash]; rfl, ?_⟩
        by_contra hno
        exact hstop fun d hd => by rw [← Option.some.inj hd]; simpa using hno
    have hchars : ∀ c ∈ '\'' :: 'x' :: "://h:a?***".toList ++ trail, valueChar c = true :=
      List.forall_mem_append.mpr ⟨Py.forall_of_all (by decide), htrail⟩
    have hne := @sub_param_rest_ne u (nested u maxNesting) _ hq.userinfo hrun _ hchars
    exact hne

end Pairs

section Credentials

/-- What stands after the last whitespace. -/
def lastWord (p : List Char) : List Char := p.rtakeWhile fun c => !Py.isSpace c

/-- What the first pass leaves of the word before a parameter. -/
def wordBefore (p : List Char) : List Char := Py.sub userinfo (lastWord p)

/-- What the first two passes leave of it. -/
def textBefore (u : Unicode) (p : List Char) : List Char :=
  Py.sub (url u (Redaction.nested u maxNesting)) (wordBefore p)

/-- A URL goes on over the whole parameter, and if that stands in the value of another one it is a
parameter of a sensitive name once more when it is decoded. -/
structure Keeps (u : Unicode) (p name value : List Char) : Prop where
  unbroken : ∀ c ∈ name ++ value, c ∉ breakers
  found : ∀ scheme body, UrlRuns (wordBefore p) scheme body → '?' ∈ body →
    Found u (Percent.unquotePlus name) (Percent.unquotePlus value)

theorem lastWord_append {word : List Char} (hword : ∀ c ∈ word, Py.isSpace c = false)
    (hc : Py.isSpace c = true) (a : List Char) : lastWord (a ++ c :: word) = word := by
  have hrun : ∀ d ∈ word.reverse, (!Py.isSpace d) = true := by
    intro d hd
    rw [hword d (List.mem_reverse.mp hd)]
    rfl
  unfold lastWord List.rtakeWhile
  rw [List.reverse_append, List.reverse_cons, List.append_assoc, List.singleton_append,
    (Py.takeWhile_run hrun (by simp [hc])).1, List.reverse_reverse]

theorem lastWord_eq_self {word : List Char} (hword : ∀ c ∈ word, Py.isSpace c = false) :
    lastWord word = word := by
  unfold lastWord
  rw [List.rtakeWhile_eq_self_iff]
  exact fun c hc => by rw [hword c hc]; rfl

theorem redactWith_lastWord (p : List Char) :
    ∃ r, ∀ t, redactWith u nested (p ++ t) = r ++ redactWith u nested (lastWord p ++ t) := by
  rcases Py.run_or_last_stop (fun c => !Py.isSpace c) p with hall | ⟨a, c, word, rfl, hc, hword⟩
  · refine ⟨[], fun t => ?_⟩
    rw [lastWord_eq_self fun c hc => by simpa using hall c hc, List.nil_append]
  · have hspace : Py.isSpace c = true := by simpa using hc
    refine ⟨redactWith u nested a ++ [c], fun t => ?_⟩
    rw [lastWord_append (fun c hc => by simpa using hword c hc) hspace, List.append_assoc,
      List.cons_append, redactWith_space hspace]
    simp

/-- Where no URL goes on over the parameter, two values are told apart unless both are masked. -/
theorem alike_iff (p : List Char) {value value' : List Char} (h : Credential u name value)
    (h' : Credential u name value') (hq : EndsValue q) (hquiet : ¬marks <:+: query name value)
    (hquiet' : ¬marks <:+: query name value') (hno : ∀ scheme body,
      ¬UrlRuns (wordBefore p) scheme body) :
    redactUrlsInText u (p ++ query name value ++ q) =
      redactUrlsInText u (p ++ query name value' ++ q) ↔
      value = value' ∨ Masked u (Redaction.nested u maxNesting) (textBefore u p) name value ∧
        Masked u (Redaction.nested u maxNesting) (textBefore u p) name value' := by
  obtain ⟨r, hr⟩ := @redactWith_lastWord u (Redaction.nested u maxNesting) p
  obtain ⟨z, w, hz⟩ := @redactWith_apart u (Redaction.nested u maxNesting)
      (lastWord p) name q hq hno
  obtain ⟨hmasked, hkept⟩ := hz value h hquiet
  obtain ⟨hmasked', hkept'⟩ := hz value' h' hquiet'
  have hmask (v : List Char) : mask ≠ w ++ query name v := by
    intro heq
    have hmem : '?' ∈ w ++ query name v := by simp [query]
    rw [← heq] at hmem
    exact absurd hmem (by decide)
  unfold redactUrlsInText
  rw [List.append_assoc, List.append_assoc, hr, hr, List.append_cancel_left_eq, ← List.append_assoc,
    ← List.append_assoc]
  constructor
  · intro heq
    by_cases hone : Masked u (Redaction.nested u maxNesting) (textBefore u p) name value <;>
      by_cases hother : Masked u (Redaction.nested u maxNesting) (textBefore u p) name value'
    · exact .inr ⟨hone, hother⟩
    · rw [hmasked hone, hkept' hother] at heq
      exact absurd (List.append_cancel_left (List.append_cancel_right heq)) (hmask value')
    · rw [hkept hone, hmasked' hother] at heq
      exact absurd (List.append_cancel_left (List.append_cancel_right heq)).symm (hmask value)
    · rw [hkept hone, hkept' hother] at heq
      have hquery := List.append_cancel_left
          (List.append_cancel_left (List.append_cancel_right heq))
      have hpair := List.append_cancel_left (List.cons.inj hquery).2
      exact .inl (List.cons.inj hpair).2
  · rintro (rfl | ⟨hone, hother⟩)
    · rfl
    · rw [hmasked hone, hmasked' hother]

/-- Where a URL goes on over the parameter, two values are alike if it goes on over both, or ends in
both. -/
theorem alike_of_url (p : List Char) {value value' : List Char} (h : Credential u name value)
    (h' : Credential u name value') (hq : EndsValue q) (hquiet : ¬marks <:+: query name value)
    (hquiet' : ¬marks <:+: query name value') (hruns : ∃ scheme body,
      UrlRuns (wordBefore p) scheme body) (hboth : Keeps u p name value ∧ Keeps u p name value' ∨
      Cuts u (lastWord p) name value q ∧ Cuts u (lastWord p) name value' q) :
    redactUrlsInText u (p ++ query name value ++ q) =
      redactUrlsInText u (p ++ query name value' ++ q) := by
  obtain ⟨r, hr⟩ := @redactWith_lastWord u (Redaction.nested u maxNesting) p
  unfold redactUrlsInText
  rw [List.append_assoc, List.append_assoc, hr, hr, List.append_cancel_left_eq, ← List.append_assoc,
    ← List.append_assoc]
  rcases hboth with ⟨hkeeps, hkeeps'⟩ | ⟨hcuts, hcuts'⟩
  · obtain ⟨veil, hveil⟩ := @exists_veil u (Percent.unquotePlus name)
    obtain ⟨r, hr⟩ := @redactWith_hidden u (Redaction.nested u maxNesting) veil
        (lastWord p) name q hq
    have hhidden {v : List Char} (h : Credential u name v) (hquiet : ¬marks <:+: query name v)
        (hkeeps : Keeps u p name v) : Hidden u (Redaction.nested u maxNesting) veil
          (lastWord p) name v := by
      refine ⟨h, hquiet, fun scheme body hruns => ⟨hkeeps.unbroken, fun hmem =>
        hveil _ (hkeeps.found scheme body hruns hmem)⟩, fun hno => ?_⟩
      obtain ⟨scheme, body, hruns⟩ := hruns
      exact absurd hruns (hno scheme body)
    rw [(hr value (hhidden h hquiet hkeeps)).1, (hr value' (hhidden h' hquiet' hkeeps')).1]
  · obtain ⟨r, hr⟩ := @redactWith_cut u (Redaction.nested u maxNesting) (lastWord p) name q hq hruns
    rw [hr value h hquiet hcuts, hr value' h' hquiet' hcuts']

/-- The userinfo that a match takes out: up to the last `@` before the path. -/
theorem userinfo_credential {value : List Char} (hvalue : ∀ c ∈ value, userinfoChar c = true)
    (before q : List Char) :
    userinfo ('/' :: '/' :: ':' :: before) (value ++ '@' :: q) =
      some (value.length + 1 + ((q.takeWhile userinfoChar).rdropWhile (· ≠ '@')).length, []) := by
  have htake : (value ++ '@' :: q).takeWhile userinfoChar = value ++ ['@'] ++
      q.takeWhile userinfoChar := by
    rw [List.takeWhile_append_of_pos hvalue, List.takeWhile_cons_of_pos (by decide)]
    simp
  have hrun := (Py.rdropWhile_append (p := fun c => decide (c ≠ '@')) (a := value ++ ['@'])
      (by simp) (by simp) (q.takeWhile userinfoChar)).1
  unfold userinfo
  dsimp only
  rw [htake, hrun, if_pos ⟨rfl, by simp⟩, List.length_append, List.length_append,
    List.length_singleton]

/-- The userinfo of a URL is taken out, whatever it is. -/
theorem sub_userinfo_credential (p q : List Char) :
    ∃ r, ∀ value, (∀ c ∈ value, userinfoChar c = true) →
      Py.sub userinfo (p ++ marks ++ value ++ '@' :: q) = r := by
  let n := ((q.takeWhile userinfoChar).rdropWhile (· ≠ '@')).length
  refine ⟨Py.sub userinfo (p ++ [':']) ++ '/' :: '/' :: Py.subFrom userinfo (q.take n).reverse 0
    (q.drop n), fun value hvalue => ?_⟩
  have hshape : p ++ marks ++ value ++ '@' :: q =
      p ++ [':'] ++ '/' :: '/' :: (value ++ '@' :: q) := by
    simp [marks]
  have hslash : userinfoChar '/' = false := by decide
  have hahead (before a' : List Char) (_ : a' ≠ []) :
      userinfo before (a' ++ '/' :: '/' :: (value ++ '@' :: q)) = userinfo before a' :=
    userinfo_ahead hslash before a' _
  have hmatch := Py.subFrom_match userinfo_bounded (userinfo_credential hvalue p.reverse q)
  have hdrop : (value ++ '@' :: q).drop (value.length + 1 + n) = q.drop n := by
    rw [List.append_cons, ← List.drop_drop, List.drop_left' (by simp)]
  have htaken : (value ++ '@' :: q).take (value.length + 1 + n) = value ++ '@' :: q.take n := by
    rw [List.append_cons value '@' q, show value.length + 1 = (value ++ ['@']).length by simp,
      List.take_length_add_append]
    simp
  have htake : ((value ++ '@' :: q).take (value.length + 1 + n)).reverse ++ '/' :: '/' ::
      ':' :: p.reverse =
      (q.take n).reverse ++ '@' :: (value.reverse ++ '/' :: '/' :: ':' :: p.reverse) := by
    rw [htaken]
    simp
  have hbehind := (@userinfo_behind '@' (by decide) (by decide)).subFrom_eq (q.take n).reverse
  rw [hshape, Py.sub, Py.subFrom_append userinfo_bounded hahead (Nat.zero_le _),
    Py.subFrom_none (userinfo_stop hslash _ _), Py.subFrom_none (userinfo_stop hslash _ _)]
  have hbefore : '/' :: '/' :: ((p ++ [':']).reverse ++ []) = '/' :: '/' :: ':' :: p.reverse := by
    simp
  rw [hbefore, hmatch, List.nil_append, hdrop, htake, hbehind]
  rfl

theorem toLower_split (a b : List Char) :
    (a ++ '?' :: b).map Char.toLower = a.map Char.toLower ++ '?' :: b.map Char.toLower :=
  List.map_append

theorem toLower_mem (c : Char) (hc : c ∈ partMarks) (cs : List Char) (h : c ∈ cs.map Char.toLower) :
    c ∈ cs := by
  obtain ⟨d, hd, rfl⟩ := List.mem_map.mp h
  rw [toLower_of_mark hc]
  exact hd

/-- The letters of ASCII, and unmatched brackets in a host. -/
def ascii : Unicode where
  lower := List.map Char.toLower
  rejects netloc := decide ('[' ∈ netloc) != decide (']' ∈ netloc)
  lower_nil := rfl
  rejects_nil := rfl
  lower_split := toLower_split
  lower_mem := toLower_mem

theorem credential_token {value : List Char} (hne : value ≠ [])
    (hchar : ∀ c ∈ value, valueChar c = true) (hend : ∀ c ∈ value.getLast?, c ∉ closers) :
    Credential ascii "token".toList value where
  name_ne := by decide
  name_char := Py.forall_of_all (by decide)
  sensitive := by decide +kernel
  value_ne := hne
  value_char := hchar
  value_end := hend

theorem token_value {value : List Char}
    (h : value = "a1".toList ∨ value = "b+2".toList ∨ value = "b%2B2".toList ∨
      value = "a'b".toList ∨
      value = "c'd".toList) :
    Credential ascii "token".toList value ∧ ¬marks <:+: query "token".toList value := by
  rcases h with rfl | rfl | rfl | rfl | rfl <;>
    exact ⟨credential_token (by decide) (Py.forall_of_all (by decide))
      (Py.forall_of_all_option (by decide)), by decide⟩

end Credentials

end Redaction
end InferenceEngine
