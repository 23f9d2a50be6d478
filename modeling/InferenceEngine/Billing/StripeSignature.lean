import InferenceEngine.Lib.Utf8
import InferenceEngine.Billing.ClientStream
import InferenceEngine.Billing.Signing
import InferenceEngine.Billing.Webhook

/-!
# Billing.StripeSignature

The signatures of inbound webhooks (`verify_signature` of `billing/stripe.py`), and the route they
guard (`stripe_webhook` of `api/billing_router.py`) from the request on. Anyone can post to the
route, what Stripe sent before included. HMAC-SHA256 and `json.loads` are parameters.

* `signed_accepted_iff`: what Stripe signs with several secrets is accepted for each of them, while
  it is fresh.
* `forged_inert`: the posts that Stripe did not sign, and those it signed too long ago, are as if
  never sent.
-/

namespace InferenceEngine

namespace StripeSignature

/-! ## The header -/

/-- `int(value)` of a text that comes from a header; none for a `ValueError`. -/
def intOf (value : List Char) : Option Int :=
  let digits (ds : List Char) : Option Int :=
    if decimal ds ∧ (ds.filter (· ≠ '_')).length ≤
      4300 then some (Nat.ofDigitChars 10 (ds.filter (· ≠ '_')) 0)
    else none
  match Py.stripBlank value with
  | '-' :: ds => (digits ds).map fun n => -n
  | '+' :: ds => digits ds
  | ds => digits ds

/-- One part of the header, after what the parts before it came to. -/
def parsePart (parsed : Int × List (List Char)) (part : List Char) : Int × List (List Char) :=
  if '=' ∉ part then parsed
  else
    let name := Py.strip (Py.partition '=' part).1
    let value := (Py.partition '=' part).2
    if name = ['t'] then ((intOf value).getD (-1), parsed.2)
    else if name = ['v', '1'] then (parsed.1, parsed.2 ++ [Py.strip value])
    else parsed

def parseSigHeader (header : List Char) : Int × List (List Char) :=
  (header.splitOn ',').foldl parsePart (-1, [])

/-! ## The signature -/

inductive Verified where
  | ok
  | signatureError (message : String)
  /-- an exception that is no `SignatureError` -/
  | raised (e : Exc)
  deriving DecidableEq, Repr

def hexDigit (n : Nat) : Char := Char.ofNat (if n < 10 then 48 + n else 87 + n)

def hexdigest (digest : List UInt8) : List Char :=
  digest.flatMap fun b => [hexDigit (b.toNat / 16), hexDigit (b.toNat % 16)]

/-- The text that is signed: the time, a point and the body as it was sent. -/
def signedPayload (timestamp : Nat) (payload : List UInt8) : List UInt8 :=
  Utf8.encode (Nat.toDigits 10 timestamp ++ ['.']) ++ payload

/-- `any(hmac.compare_digest(expected, candidate) for candidate in signatures)`. -/
def anyMatch (expected : List Char) : List (List Char) → Except Exc Bool
  | [] => .ok false
  | candidate :: candidates =>
    match compareDigest expected candidate with
    | .error e => .error e
    | .ok equal => if equal then .ok true else anyMatch expected candidates

/-- The integers from here on have no float. -/
def floatLimit : Int := 2 ^ 1024 - 2 ^ 970

section

variable (hmac : List UInt8 → List UInt8 → List UInt8)

def tag (secret : List Char) (timestamp : Nat) (payload : List UInt8) : List Char :=
  hexdigest (hmac (Utf8.encode secret) (signedPayload timestamp payload))

def verifySignature (payload : List UInt8) (header : Option (List Char)) (secret : List Char)
    (tolerance : Nat) (now : ℚ) : Verified :=
  match header.filter (· ≠ []) with
  | none => .signatureError "missing signature header"
  | some header =>
    if secret = [] then .signatureError "no signing secret configured"
    else
      let timestamp := (parseSigHeader header).1
      let signatures := (parseSigHeader header).2
      if timestamp < 0 ∨ signatures = [] then .signatureError "malformed signature header"
      else if 0 < tolerance ∧
        floatLimit ≤ timestamp then .raised (.other "int too large to convert to float")
      else if 0 < tolerance ∧ (tolerance : ℚ) < |now - timestamp| then
        .signatureError "timestamp outside tolerance"
      else
        match anyMatch (tag hmac secret timestamp.toNat payload) signatures with
        | .error e => .raised e
        | .ok true => .ok
        | .ok false => .signatureError "signature mismatch"

/-! ## The route -/

/-- What `json.loads` makes of a body: an event, if it is an object. -/
inductive Loaded (F : Type) where
  | malformed
  | raised
  | event (event : StripeEvent F)

structure Settings where
  billingProvider : Option String
  stripeWebhookSecret : Option (List Char)
  stripeSignatureToleranceS : Nat

/-- A request to the route: what is sent, when it is looked at, and what becomes of the calls it
leads to. -/
structure Post where
  raw : List UInt8
  stripeSignature : Option (List Char)
  now : ℚ
  delivery : StripeDelivery

inductive HookReply where
  | billingDisabled
  | invalidSignature
  | of (reply : Option Reply)
  deriving DecidableEq, Repr

variable {F : Type} (r : Render F) (loads : List UInt8 → Loaded F) (settings : Settings)

/-- The secret, if the route is enabled. -/
def Settings.enabled (settings : Settings) : Option (List Char) :=
  if settings.billingProvider = some "stripe" then settings.stripeWebhookSecret.filter (· ≠ [])
    else none

def stripeWebhook (s : WebhookState) (post : Post) : HookReply × WebhookState :=
  match settings.enabled with
  | none => (.billingDisabled, s)
  | some secret =>
    match verifySignature hmac post.raw post.stripeSignature secret
        settings.stripeSignatureToleranceS post.now with
    | .signatureError _ => (.invalidSignature, s)
    | .raised _ => (.of (some .internalError), s)
    | .ok =>
      match loads post.raw with
      | .malformed => (.of (some .invalidPayload), s)
      | .raised => (.of (some .internalError), s)
      | .event event =>
        let delivered := s.deliver r event post.delivery
        (.of delivered.1, delivered.2)

/-- The state after posts, one after the other. -/
def posted (s : WebhookState) (posts : List Post) : WebhookState :=
  posts.foldl (fun s post => (stripeWebhook hmac r loads settings s post).2) s

end

/-! ## What Stripe sends -/

/-- The header as Stripe documents it: the time, a signature for each active secret, and those of
other schemes. -/
def stripeHeader (timestamp : Nat) (tags others : List (List Char)) : List Char :=
  [','].intercalate
    (('t' :: '=' :: Nat.toDigits 10 timestamp) ::
      (tags.map (['v', '1', '='] ++ ·) ++ others.map (['v', '0', '='] ++ ·)))

theorem digits_clean {n : Nat} {c : Char} (hc : c ∈ Nat.toDigits 10 n) : c.isDigit = true :=
  Nat.isDigit_of_mem_toDigits (by decide) (by decide) hc

theorem not_mem_digits {n : Nat} {c : Char} (h : c.isDigit = false) :
    c ∉ Nat.toDigits 10 n := fun hc => by
  cases h.symm.trans (digits_clean hc)

theorem intOf_digits {n : Nat} (hn : (Nat.toDigits 10 n).length ≤ 4300) :
    intOf (Nat.toDigits 10 n) = some (n : Int) := by
  have hfilter : (Nat.toDigits 10 n).filter (· ≠ '_') = Nat.toDigits 10 n := by
    refine List.filter_eq_self.mpr fun c hc => ?_
    rw [decide_eq_true_eq]
    rintro rfl
    exact not_mem_digits (by decide) hc
  unfold intOf
  rw [Py.stripBlank_clean fun c hc => Py.isSpace_of_isDigit (digits_clean hc)]
  dsimp only
  split
  · next heq => exact absurd (by simp [heq]) (not_mem_digits (c := '-') (n := n) (by decide))
  · next heq => exact absurd (by simp [heq]) (not_mem_digits (c := '+') (n := n) (by decide))
  · rw [hfilter, if_pos ⟨decimal_digits Nat.toDigits_ne_nil fun c hc => digits_clean hc, hn⟩,
      Nat.ofDigitChars_ten_toDigits]

theorem hexDigit_clean {n : Nat} (hn : n < 16) :
    Py.isSpace (hexDigit n) = false ∧ (hexDigit n).toNat < 128 ∧ hexDigit n ≠ ',' := by
  revert n
  decide

theorem tag_clean {hmac : List UInt8 → List UInt8 → List UInt8} {secret : List Char}
    {timestamp : Nat} {payload : List UInt8} {c : Char}
      (hc : c ∈ tag hmac secret timestamp payload) :
    Py.isSpace c = false ∧ c.toNat < 128 ∧ c ≠ ',' := by
  obtain ⟨b, -, hb⟩ := List.mem_flatMap.mp hc
  have hlt := b.toNat_lt
  simp only [List.mem_cons, List.not_mem_nil, or_false] at hb
  rcases hb with rfl | rfl
  · exact hexDigit_clean (by omega)
  · exact hexDigit_clean (by omega)

theorem parsePart_time (parsed : Int × List (List Char)) {n : Nat}
    (hn : (Nat.toDigits 10 n).length ≤ 4300) :
    parsePart parsed ('t' :: '=' :: Nat.toDigits 10 n) = ((n : Int), parsed.2) := by
  have hpart : Py.partition '=' ('t' :: '=' :: Nat.toDigits 10 n) = (['t'], Nat.toDigits 10 n) :=
    Py.partition_append (by decide : '=' ∉ ['t']) _
  unfold parsePart
  rw [if_neg (by simp), hpart]
  simp only [show Py.strip ['t'] = ['t'] by decide, if_true, intOf_digits hn, Option.getD_some]

theorem parsePart_tag (parsed : Int × List (List Char)) {value : List Char}
    (hvalue : ∀ c ∈ value, Py.isSpace c = false) :
    parsePart parsed (['v', '1', '='] ++ value) = (parsed.1, parsed.2 ++ [value]) := by
  have hpart : Py.partition '=' (['v', '1', '='] ++ value) = (['v', '1'], value) :=
    Py.partition_append (by decide : '=' ∉ ['v', '1']) _
  unfold parsePart
  rw [if_neg (by simp), hpart]
  simp only [show Py.strip ['v', '1'] = ['v', '1'] by decide, Py.strip_clean hvalue, if_true]
  rfl

theorem parsePart_other (parsed : Int × List (List Char)) (value : List Char) :
    parsePart parsed (['v', '0', '='] ++ value) = parsed := by
  have hpart : Py.partition '=' (['v', '0', '='] ++ value) = (['v', '0'], value) :=
    Py.partition_append (by decide : '=' ∉ ['v', '0']) _
  unfold parsePart
  rw [if_neg (by simp), hpart]
  rfl

theorem foldl_tags {tags : List (List Char)}
    (htags : ∀ value ∈ tags, ∀ c ∈ value, Py.isSpace c = false) :
    ∀ parsed : Int × List (List Char),
      (tags.map (['v', '1', '='] ++ ·)).foldl parsePart parsed = (parsed.1, parsed.2 ++ tags) := by
  induction tags with
  | nil => simp
  | cons value tags ih =>
    intro parsed
    rw [List.map_cons, List.foldl_cons, parsePart_tag parsed (htags value List.mem_cons_self),
      ih fun v hv => htags v (List.mem_cons_of_mem _ hv)]
    simp

theorem foldl_others (others : List (List Char)) (parsed : Int × List (List Char)) :
    (others.map (['v', '0', '='] ++ ·)).foldl parsePart parsed = parsed := by
  induction others with
  | nil => rfl
  | cons value others ih => rw [List.map_cons, List.foldl_cons, parsePart_other, ih]

theorem parse_stripeHeader {timestamp : Nat} (htime : (Nat.toDigits 10 timestamp).length ≤ 4300)
    {tags others : List (List Char)} (htags : ∀ value ∈ tags, ∀ c ∈ value, Py.isSpace c = false ∧
      c ≠ ',') (hothers : ∀ value ∈ others, ',' ∉ value) :
    parseSigHeader (stripeHeader timestamp tags others) = ((timestamp : Int), tags) := by
  unfold parseSigHeader stripeHeader
  rw [List.splitOn_intercalate ',' ?_ (List.cons_ne_nil _ _), List.foldl_cons,
    parsePart_time _ htime, List.foldl_append,
    foldl_tags fun value hvalue c hc => (htags value hvalue c hc).1, foldl_others]
  · rfl
  · intro part hpart
    rcases List.mem_cons.mp hpart with rfl | hpart
    · simp [not_mem_digits (c := ',') (n := timestamp) (by decide)]
    · rcases List.mem_append.mp hpart with hpart | hpart
      · obtain ⟨value, hvalue, rfl⟩ := List.mem_map.mp hpart
        have hcomma : ',' ∉ value := fun hc => (htags value hvalue ',' hc).2 rfl
        simp [hcomma]
      · obtain ⟨value, hvalue, rfl⟩ := List.mem_map.mp hpart
        simp [hothers value hvalue]

theorem anyMatch_ascii {expected : List Char} (hexpected : ∀ c ∈ expected, c.toNat < 128)
    {tags : List (List Char)} (htags : ∀ value ∈ tags, ∀ c ∈ value, c.toNat < 128) :
    anyMatch expected tags = .ok (decide (expected ∈ tags)) := by
  induction tags with
  | nil => rfl
  | cons value tags ih =>
    have hdigest : compareDigest expected value = .ok (expected == value) := by
      refine if_pos (List.all_eq_true.mpr fun c hc => ?_)
      rw [decide_eq_true_eq]
      rcases List.mem_append.mp hc with hc | hc
      · exact hexpected c hc
      · exact htags value List.mem_cons_self c hc
    rw [anyMatch, hdigest]
    dsimp only
    by_cases heq : expected = value
    · simp [heq]
    · rw [if_neg (by simpa using heq), ih fun v hv => htags v (List.mem_cons_of_mem _ hv)]
      simp [heq]

theorem mem_of_anyMatch {expected : List Char} {tags : List (List Char)}
    (h : anyMatch expected tags = .ok true) :
    expected ∈ tags := by
  induction tags with
  | nil => cases h
  | cons value tags ih =>
    rw [anyMatch, compareDigest] at h
    split at h
    · cases h
    · next equal hequal =>
      split at hequal
      · cases hequal
        split at h
        · next heq => exact List.mem_cons.mpr (.inl (eq_of_beq heq))
        · exact List.mem_cons_of_mem _ (ih h)
      · cases hequal

/-- Recent enough, if the age matters at all. -/
def Fresh (tolerance : Nat) (now : ℚ) (timestamp : Nat) : Prop :=
  tolerance = 0 ∨ |now - timestamp| ≤ tolerance

instance (tolerance : Nat) (now : ℚ) (timestamp : Nat) :
    Decidable (Fresh tolerance now timestamp) :=
  inferInstanceAs (Decidable (_ ∨ _))

section

variable {hmac : List UInt8 → List UInt8 → List UInt8} {payload : List UInt8} {secret : List Char}
  {tolerance : Nat}
  {now : ℚ}

theorem of_verified {header : Option (List Char)}
    (h : verifySignature hmac payload header secret tolerance now = .ok) :
    ∃ timestamp : Nat, Fresh tolerance now timestamp ∧
      tag hmac secret timestamp payload ∈ (parseSigHeader (header.getD [])).2 := by
  unfold verifySignature at h
  split at h
  · cases h
  · next text htext =>
    obtain ⟨rfl, -⟩ := Option.filter_eq_some_iff.mp htext
    split at h
    · cases h
    · dsimp only at h
      split at h
      · cases h
      · next hform =>
        split at h
        · cases h
        · split at h
          · cases h
          · next hage =>
            split at h
            · cases h
            · next hmatch =>
              obtain ⟨timestamp, htime⟩ := Int.eq_ofNat_of_zero_le (not_lt.mp (not_or.mp hform).1)
              refine ⟨timestamp, ?_, ?_⟩
              · rw [htime, Int.cast_natCast] at hage
                rcases Nat.eq_zero_or_pos tolerance with hzero | hpos
                · exact .inl hzero
                · exact .inr (not_lt.mp fun hlt => hage ⟨hpos, hlt⟩)
              · rw [htime] at hmatch
                exact mem_of_anyMatch hmatch
            · cases h

theorem length_digits {n k : Nat} (hk : 0 < k) (h : n < 2 ^ k) : (Nat.toDigits 10 n).length ≤ k :=
  (Nat.length_toDigits_le_iff (by decide) hk).mpr (h.trans_le (Nat.pow_le_pow_left (by decide) k))

theorem lt_floatLimit {timestamp : Nat} (h : timestamp < 2 ^ 64) :
    (timestamp : Int) < floatLimit := by
  have hcast : (timestamp : Int) < 2 ^ 64 := by exact_mod_cast h
  have hhalf : (2 : Int) ^ 1024 = 2 ^ 1023 * 2 := pow_succ 2 1023
  have hulp : (2 : Int) ^ 970 < 2 ^ 1023 := pow_lt_pow_right₀ (by decide) (by decide)
  have hword : (2 : Int) ^ 64 < 2 ^ 1023 := pow_lt_pow_right₀ (by decide) (by decide)
  unfold floatLimit
  rw [hhalf]
  generalize (2 : Int) ^ 1023 = half at hulp hword
  generalize (2 : Int) ^ 970 = ulp at hulp
  omega

theorem stripeHeader_ne_nil (timestamp : Nat) (tags others : List (List Char)) :
    stripeHeader timestamp tags others ≠ [] := by
  intro h
  have hparts := congrArg List.length h
  unfold stripeHeader at hparts
  cases hrest : tags.map (['v', '1', '='] ++ ·) ++ others.map (['v', '0', '='] ++ ·) with
  | nil =>
    rw [hrest] at hparts
    simp at hparts
  | cons part parts =>
    rw [hrest, List.intercalate_cons_cons] at hparts
    simp at hparts

/-- A request that Stripe signs with several secrets, as it does while one is replaced by another,
is accepted by whoever has one of them, exactly as long as it is fresh. -/
theorem signed_accepted_iff {secrets others : List (List Char)} (hmem : secret ∈ secrets)
    (hsecret : secret ≠ []) (hothers : ∀ value ∈ others, ',' ∉ value) {timestamp : Nat}
      (htime : timestamp < 2 ^ 64) :
    verifySignature hmac payload
        (some (stripeHeader timestamp
        (secrets.map fun s => tag hmac s timestamp payload) others)) secret tolerance
        now = .ok ↔
      Fresh tolerance now timestamp := by
  set tags := secrets.map fun s => tag hmac s timestamp payload with htags
  have hclean : ∀ value ∈ tags, ∀ c ∈ value, Py.isSpace c = false ∧ c.toNat < 128 ∧ c ≠ ',' := by
    intro value hvalue
    obtain ⟨s, -, rfl⟩ := List.mem_map.mp hvalue
    exact fun c hc => tag_clean hc
  have hparse : parseSigHeader (stripeHeader timestamp tags others) = ((timestamp : Int), tags) :=
    parse_stripeHeader ((length_digits (by decide) htime).trans (by decide))
      (fun v hv c hc => ⟨(hclean v hv c hc).1, (hclean v hv c hc).2.2⟩)
      hothers
  have hown : tag hmac secret timestamp payload ∈ tags := List.mem_map.mpr ⟨secret, hmem, rfl⟩
  have hmatch : anyMatch (tag hmac secret timestamp payload) tags = .ok true := by
    rw [anyMatch_ascii (fun c hc => (tag_clean hc).2.1) fun v hv c hc => (hclean v hv c hc).2.1,
      decide_eq_true hown]
  have hheader : (some (stripeHeader timestamp tags others)).filter (· ≠ []) =
      some (stripeHeader timestamp tags others) :=
    Option.filter_eq_some_iff.mpr ⟨rfl, decide_eq_true (stripeHeader_ne_nil timestamp tags others)⟩
  have hform : ¬((timestamp : Int) < 0 ∨ tags = []) := by
    rintro (hneg | hnil)
    · exact absurd hneg (not_lt.mpr (Int.natCast_nonneg timestamp))
    · rw [hnil] at hown
      cases hown
  have hfloat : ¬(0 < tolerance ∧ floatLimit ≤ (timestamp : Int)) :=
      fun h => absurd (lt_floatLimit htime) (not_lt.mpr h.2)
  unfold verifySignature
  simp only [hheader, hparse, if_neg hsecret, if_neg hform, if_neg hfloat, Int.cast_natCast,
    Int.toNat_natCast, hmatch]
  unfold Fresh
  constructor
  · intro h
    split at h
    · cases h
    · next hage =>
      rcases Nat.eq_zero_or_pos tolerance with hzero | hpos
      · exact .inl hzero
      · exact .inr (not_lt.mp fun hlt => hage ⟨hpos, hlt⟩)
  · rintro (hzero | hage)
    · rw [if_neg fun h => absurd h.1 (by omega)]
    · rw [if_neg fun h => absurd h.2 (not_lt.mpr hage)]

end

/-! ## Forged and replayed posts -/

/-- Nothing else is signed by the same text: where the digits end, a point stands. -/
theorem signedPayload_inj {timestamp timestamp' : Nat} {payload payload' : List UInt8}
    (h : signedPayload timestamp payload = signedPayload timestamp' payload') :
    timestamp = timestamp' ∧ payload = payload' := by
  have hsplit : ∀ (n : Nat) (bs : List UInt8),
      Py.partition '.' (Utf8.decodeFrom none (signedPayload n bs)) =
        (Nat.toDigits 10 n, Utf8.decodeFrom none bs) := by
    intro n bs
    rw [signedPayload, Utf8.decodeFrom_encode, List.append_assoc]
    exact Py.partition_append (not_mem_digits (by decide)) _
  have hdigits : Nat.toDigits 10 timestamp = Nat.toDigits 10 timestamp' := by
    have heq := congrArg (fun bs => (Py.partition '.' (Utf8.decodeFrom none bs)).1) h
    simpa only [hsplit] using heq
  have htime : timestamp = timestamp' := by
    rw [← Nat.ofDigitChars_ten_toDigits (n := timestamp), hdigits, Nat.ofDigitChars_ten_toDigits]
  subst htime
  exact ⟨rfl, List.append_cancel_left h⟩

section

variable (hmac : List UInt8 → List UInt8 → List UInt8) {F : Type} (r : Render F)
  (loads : List UInt8 → Loaded F)
  (settings : Settings)

/-- Who does not have the secret cannot make a signature of a text that was not signed; one that was
signed can be sent again, with any body and at any time. -/
def Unforged (signed : List (Nat × List UInt8)) (post : Post) : Prop :=
  ∀ secret ∈ settings.stripeWebhookSecret, ∀ timestamp,
    tag hmac secret timestamp post.raw ∈ (parseSigHeader (post.stripeSignature.getD [])).2 →
      ∃ e ∈ signed, signedPayload e.1 e.2 = signedPayload timestamp post.raw

/-- The body of the post was signed, and recently enough. -/
def authentic (tolerance : Nat) (signed : List (Nat × List UInt8)) (post : Post) : Bool :=
  signed.any fun e => decide (e.2 = post.raw) && decide (Fresh tolerance post.now e.1)

variable {hmac r loads settings}

theorem enabled_secret {secret : List Char} (h : settings.enabled = some secret) :
    secret ∈ settings.stripeWebhookSecret := by
  unfold Settings.enabled at h
  split at h
  · exact (Option.filter_eq_some_iff.mp h).1
  · cases h

theorem stripeWebhook_inert {signed : List (Nat × List UInt8)} {post : Post}
    (hpost : Unforged hmac settings signed post)
    (hforged : ¬authentic settings.stripeSignatureToleranceS signed post = true)
      (s : WebhookState) : (stripeWebhook hmac r loads settings s post).2 = s := by
  unfold stripeWebhook
  split
  · rfl
  · next secret hsecret =>
    split
    · rfl
    · rfl
    · next hok =>
      obtain ⟨timestamp, hfresh, htag⟩ := of_verified hok
      obtain ⟨e, he, hsigned⟩ := hpost secret (enabled_secret hsecret) timestamp htag
      obtain ⟨htime, hraw⟩ := signedPayload_inj hsigned
      refine absurd (List.any_eq_true.mpr ⟨e, he, ?_⟩) hforged
      rw [Bool.and_eq_true, decide_eq_true_eq, decide_eq_true_eq, htime]
      exact ⟨hraw, hfresh⟩

/-- Whoever posts what to the route, and in whichever order: the state after it is the one after
those posts alone that bear a body Stripe signed not longer ago than the tolerance. -/
theorem forged_inert (r : Render F) (loads : List UInt8 → Loaded F)
    {signed : List (Nat × List UInt8)} {posts : List Post} (hposts : ∀ post ∈ posts,
      Unforged hmac settings signed post) (s : WebhookState) :
    posted hmac r loads settings s posts =
      posted hmac r loads settings s
      (posts.filter (authentic settings.stripeSignatureToleranceS signed)) := by
  unfold posted
  induction posts generalizing s with
  | nil => rfl
  | cons post posts ih =>
    have hrest := ih fun p hp => hposts p (List.mem_cons_of_mem _ hp)
    rw [List.foldl_cons]
    by_cases hauth : authentic settings.stripeSignatureToleranceS signed post = true
    · rw [List.filter_cons_of_pos hauth, List.foldl_cons]
      exact hrest _
    · rw [List.filter_cons_of_neg hauth, stripeWebhook_inert (hposts post List.mem_cons_self) hauth]
      exact hrest s

end

/-! ## One event, an altered one and a late one -/

def webhookSecret : List Char := "whsec_test".toList

def eventBody : List UInt8 := Utf8.encode "\x7b\"id\":\"evt_1\"\x7d".toList

/-- HMAC-SHA256 with this secret, of the body sent at 1700000000. -/
def eventDigest (key content : List UInt8) : List UInt8 :=
  if key = Utf8.encode webhookSecret ∧ content = signedPayload 1700000000 eventBody then
    [200, 146, 20, 181, 181, 218, 131, 61, 174, 214, 240, 184, 197, 187, 107, 213, 140, 234, 144,
      34, 189, 128, 204, 199, 130, 48, 243, 148, 45, 99, 41, 37]
  else []

def sentHeader : List Char :=
  stripeHeader 1700000000 [tag eventDigest webhookSecret 1700000000 eventBody] []

theorem signed_accepted_iff_event :
    verifySignature eventDigest eventBody (some sentHeader) webhookSecret 300 1700000010 = .ok :=
  (signed_accepted_iff (by simp : webhookSecret ∈ [webhookSecret]) (by decide)
    (by simp : ∀ value ∈ ([] : List (List Char)), ',' ∉ value) (by decide)).mpr (by decide +kernel)

def stripeSettings : Settings := ⟨some "stripe", some webhookSecret, 300⟩

def eventPost (raw : List UInt8) (now : ℚ) : Post :=
  ⟨raw, some sentHeader, now, WebhookState.getsThrough⟩

theorem eventPost_unforged (raw : List UInt8) (now : ℚ) :
    Unforged eventDigest stripeSettings [(1700000000, eventBody)] (eventPost raw now) := by
  intro secret hsecret timestamp htag
  obtain rfl : webhookSecret = secret := Option.some.inj hsecret
  have hsent : (parseSigHeader sentHeader).2 =
      [tag eventDigest webhookSecret 1700000000 eventBody] := by
    decide +kernel
  have htag : tag eventDigest webhookSecret timestamp raw =
      tag eventDigest webhookSecret 1700000000 eventBody :=
    List.mem_singleton.mp (hsent ▸ htag)
  refine ⟨_, List.mem_singleton_self _, ?_⟩
  by_contra hne
  have hnil : tag eventDigest webhookSecret timestamp raw = [] := by
    rw [tag, eventDigest, if_neg fun h => hne h.2.symm]
    rfl
  rw [hnil] at htag
  exact absurd htag (by decide +kernel)

/-- The event comes once with another body, once as it was sent and once more after six minutes. -/
theorem forged_inert_threePosts :
    posted eventDigest .plain (fun _ => .event firstSubscription) stripeSettings { db := proStore }
        [eventPost [] 1700000005, eventPost eventBody 1700000010, eventPost eventBody 1700000360] =
      posted eventDigest .plain (fun _ => .event firstSubscription) stripeSettings
        { db := proStore }
        [eventPost eventBody 1700000010] := by
  have hposts : ∀ post ∈ [eventPost [] 1700000005, eventPost eventBody 1700000010,
      eventPost eventBody 1700000360],
      Unforged eventDigest stripeSettings [(1700000000, eventBody)] post := by
    intro post hpost
    simp only [List.mem_cons, List.not_mem_nil, or_false] at hpost
    rcases hpost with rfl | rfl | rfl <;> exact eventPost_unforged _ _
  have hauthentic : [eventPost [] 1700000005, eventPost eventBody 1700000010,
      eventPost eventBody 1700000360].filter
      (authentic 300 [(1700000000, eventBody)]) = [eventPost eventBody 1700000010] := by
    rw [List.filter_cons_of_neg (by decide +kernel), List.filter_cons_of_pos (by decide +kernel),
      List.filter_cons_of_neg (by decide +kernel)]
    rfl
  refine (forged_inert .plain _ hposts _).trans ?_
  exact congrArg (posted eventDigest .plain _ stripeSettings _) hauthentic

end StripeSignature

end InferenceEngine
