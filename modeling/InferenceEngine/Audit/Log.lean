import InferenceEngine.Lib.JsonRoundTrip
import Mathlib.Data.List.Induction

/-!
# Audit.Log

The hash chain of the audit log (`audit/log.py`): `_canonical`, `_row_hash` and `AuditLog.verify`.
The rows of the table are a list in the order of their ids, the detail of a row is the JSON text in
its column. The hash (`sha256` of the UTF-8 bytes, as hexadecimal digits) is a parameter.

* `hashed`: the strings that a run of `verify` gives to the hash.
* `verify_determines`: where the hash is injective on these, verified rows that end in the same hash
  are rows of the same events.
-/

namespace InferenceEngine

open Json

/-- `GENESIS_HASH` -/
def genesisHash : String := .ofList (List.replicate 64 '0')

structure AuditRow where
  id : Nat
  ts : String
  actor : String
  action : String
  target : Option String
  detail : String
  prevHash : String
  hash : String
  deriving DecidableEq, Repr

/-- What a row says, without its id. -/
structure AuditEvent (F : Type) where
  ts : String
  actor : String
  action : String
  target : Option String
  detail : Value F
  prevHash : String
  hash : String

structure VerifyResult where
  ok : Bool
  count : Nat
  firstBadId : Option Nat := none
  deriving DecidableEq, Repr

namespace AuditLog

variable {F : Type}

def payload (ts actor action : String) (target : Option String) (detail : Value F) : Value F :=
  .obj (dict
    [(.ofString "ts", .str (.ofString ts)), (.ofString "actor", .str (.ofString actor)),
      (.ofString "action", .str (.ofString action)),
      (.ofString "target", match target with
        | none => .null
        | some t => .str (.ofString t)),
      (.ofString "detail", detail)])

/-- `_canonical` -/
def canonical (fl : Floats F) (ts actor action : String) (target : Option String)
    (detail : Value F) :
    String :=
  dumps fl .compact (payload ts actor action target detail)

/-- `_row_hash` -/
def rowHash (sha256 : String → String) (prevHash canonical : String) : String :=
  sha256 (prevHash ++ canonical)

variable (sha256 : String → String) (fl : Floats F)

/-- The loop of `verify`; no result when `json.loads` raises. -/
def verifyFrom (prev : String) (count : Nat) : List AuditRow → Option VerifyResult
  | [] => some ⟨true, count, none⟩
  | r :: rows => do
    let detail ← loads fl r.detail
    let expected := rowHash sha256 prev (canonical fl r.ts r.actor r.action r.target detail)
    if r.prevHash ≠ prev ∨ r.hash ≠ expected then some ⟨false, count + 1, some r.id⟩
    else verifyFrom r.hash (count + 1) rows

/-- `AuditLog.verify` -/
def verify (rows : List AuditRow) : Option VerifyResult := verifyFrom sha256 fl genesisHash 0 rows

/-- `verify` returns with `ok`. -/
def Verified (rows : List AuditRow) : Prop :=
  ∃ res, verify sha256 fl rows = some res ∧ res.ok = true

/-- The strings that `verify` gives to the hash. -/
def hashedFrom (prev : String) : List AuditRow → List String
  | [] => []
  | r :: rows =>
    match loads fl r.detail with
    | none => []
    | some detail =>
      let text := prev ++ canonical fl r.ts r.actor r.action r.target detail
      text :: if r.prevHash ≠ prev ∨ r.hash ≠ sha256 text then [] else hashedFrom r.hash rows

def hashed (rows : List AuditRow) : List String := hashedFrom sha256 fl genesisHash rows

def event (r : AuditRow) : Option (AuditEvent F) :=
  (loads fl r.detail).map fun detail =>
    ⟨r.ts, r.actor, r.action, r.target, detail, r.prevHash, r.hash⟩

/-- What is assumed of the hash on the strings it is given. -/
structure HashOn (given : List String) : Prop where
  injective : Set.InjOn sha256 {s | s ∈ given}
  ne_genesis : ∀ s ∈ given, sha256 s ≠ genesisHash
  length : ∀ s ∈ given, (sha256 s).length = 64

theorem HashOn.mono {given given' : List String} (h : HashOn sha256 given) (hsub : given' ⊆ given) :
    HashOn sha256 given' :=
  ⟨fun _ hs _ ht => h.injective (hsub hs) (hsub ht), fun s hs => h.ne_genesis s (hsub hs),
    fun s hs => h.length s (hsub hs)⟩

/-! ## The canonical text -/

section canonical

variable {fl}

theorem payload_eq (ts actor action : String) (target : Option String) (detail : Value F) :
    payload ts actor action target detail = .obj
      [(.ofString "action", .str (.ofString action)), (.ofString "actor", .str (.ofString actor)),
        (.ofString "detail", detail),
        (.ofString "target", match target with
          | none => .null
          | some t => .str (.ofString t)),
        (.ofString "ts", .str (.ofString ts))] := by
  unfold payload
  congr 1

theorem payload_sorted (ts actor action : String) (target : Option String) {detail : Value F}
    (hd : detail.Sorted) : (payload ts actor action target detail).Sorted := by
  rw [payload_eq]
  refine .obj ?_ ?_
  · simp only [List.map_cons, List.map_nil]
    decide
  · intro p hp
    simp only [List.mem_cons, List.not_mem_nil, or_false] at hp
    rcases hp with rfl | rfl | rfl | rfl | rfl
    · exact .str _
    · exact .str _
    · exact hd
    · cases target with
      | none => exact .null
      | some t => exact .str _
    · exact .str _

theorem canonical_injective {ts ts' actor actor' action action' : String}
    {target target' : Option String} {detail detail' : Value F} (hd : detail.Sorted)
      (hd' : detail'.Sorted) (h : canonical fl ts actor action target detail =
      canonical fl ts' actor' action' target' detail') :
    ts = ts' ∧ actor = actor' ∧ action = action' ∧ target = target' ∧ detail = detail' := by
  have hpay : payload ts actor action target detail =
      payload ts' actor' action' target' detail' := by
    apply write_injective fl .compact (payload_sorted _ _ _ _ hd) (payload_sorted _ _ _ _ hd')
    exact String.ofList_injective h
  rw [payload_eq, payload_eq] at hpay
  simp only [Value.obj.injEq, List.cons.injEq, Prod.mk.injEq, Value.str.injEq, true_and, and_true,
    Text.ofString_injective.eq_iff] at hpay
  obtain ⟨haction, hactor, hdetail, htarget, hts⟩ := hpay
  refine ⟨hts, hactor, haction, ?_, hdetail⟩
  cases target <;> cases target' <;> simp_all [Text.ofString_injective.eq_iff]

end canonical

/-! ## The chain -/

/-- The row follows a row whose hash is `prev`. -/
def Follows (prev : String) (r : AuditRow) : Prop :=
  r.prevHash = prev ∧ ∃ detail, loads fl r.detail = some detail ∧
    r.hash = rowHash sha256 prev (canonical fl r.ts r.actor r.action r.target detail)

def Linked (prev : String) : List AuditRow → Prop
  | [] => True
  | r :: rows => Follows sha256 fl prev r ∧ Linked r.hash rows

/-- The hash that the next row has to carry. -/
def endHash (prev : String) (rows : List AuditRow) : String :=
  (rows.getLast?.map AuditRow.hash).getD prev

theorem endHash_cons (prev : String) (r : AuditRow) (rows : List AuditRow) :
    endHash prev (r :: rows) = endHash r.hash rows := by
  cases rows with
  | nil => rfl
  | cons q rows => simp [endHash, List.getLast?_cons]

@[simp]
theorem endHash_concat (prev : String) (rows : List AuditRow) (r : AuditRow) :
    endHash prev (rows ++ [r]) = r.hash := by
  simp [endHash]

theorem linked_append {prev : String} {rows rows' : List AuditRow} :
    Linked sha256 fl prev (rows ++ rows') ↔
      Linked sha256 fl prev rows ∧ Linked sha256 fl (endHash prev rows) rows' := by
  induction rows generalizing prev with
  | nil => simp [Linked, endHash]
  | cons q rows ih => rw [List.cons_append, Linked, Linked, ih, endHash_cons, and_assoc]

theorem linked_concat {prev : String} {rows : List AuditRow} {r : AuditRow} :
    Linked sha256 fl prev (rows ++ [r]) ↔
      Linked sha256 fl prev rows ∧ Follows sha256 fl (endHash prev rows) r := by
  simp [linked_append, Linked]

/-- The loop of `verify` ends with `ok` exactly on linked rows, and has then counted them. -/
theorem verifyFrom_ok_iff {prev : String} {n : Nat} {rows : List AuditRow} :
    (∃ res, verifyFrom sha256 fl prev n rows = some res ∧ res.ok = true) ↔
      Linked sha256 fl prev rows := by
  induction rows generalizing prev n with
  | nil => simp [verifyFrom, Linked]
  | cons r rows ih =>
    rw [Linked, Follows, verifyFrom]
    cases hload : loads fl r.detail with
    | none => simp
    | some detail =>
      by_cases hprev : r.prevHash = prev
      · by_cases hhash : r.hash =
          rowHash sha256 prev (canonical fl r.ts r.actor r.action r.target detail)
        · simp [hprev, ← hhash, ih]
        · simp [hhash]
      · simp [hprev]

theorem verifyFrom_count {prev : String} {n : Nat} {rows : List AuditRow}
    (h : Linked sha256 fl prev rows) :
    verifyFrom sha256 fl prev n rows = some ⟨true, n + rows.length, none⟩ := by
  induction rows generalizing prev n with
  | nil => rfl
  | cons r rows ih =>
    obtain ⟨⟨hprev, detail, hload, hhash⟩, hrows⟩ := h
    rw [verifyFrom, hload]
    simp only [Option.bind_eq_bind, Option.bind_some]
    rw [if_neg (by simp [hprev, hhash]), ih hrows, List.length_cons]
    congr 2
    omega

theorem verified_iff {rows : List AuditRow} :
    Verified sha256 fl rows ↔ Linked sha256 fl genesisHash rows :=
  verifyFrom_ok_iff sha256 fl

theorem hashedFrom_append {prev : String} {rows : List AuditRow} (rows' : List AuditRow)
    (h : Linked sha256 fl prev rows) :
    hashedFrom sha256 fl prev (rows ++ rows') =
      hashedFrom sha256 fl prev rows ++ hashedFrom sha256 fl (endHash prev rows) rows' := by
  induction rows generalizing prev with
  | nil => simp [hashedFrom, endHash]
  | cons q rows ih =>
    obtain ⟨⟨hprev, d, hq, hhash⟩, hrows⟩ := h
    have hpass : ¬ (q.prevHash ≠ prev ∨
        q.hash ≠ sha256 (prev ++ canonical fl q.ts q.actor q.action q.target d)) := by
      simpa [hprev, rowHash] using hhash
    simp only [List.cons_append, hashedFrom, hq, if_neg hpass, ih hrows, endHash_cons]

theorem hashedFrom_concat {prev : String} {rows : List AuditRow} {r : AuditRow} {detail : Value F}
    (h : Linked sha256 fl prev rows) (hload : loads fl r.detail = some detail) :
    hashedFrom sha256 fl prev (rows ++ [r]) = hashedFrom sha256 fl prev rows ++
      [endHash prev rows ++ canonical fl r.ts r.actor r.action r.target detail] := by
  simp [hashedFrom_append sha256 fl [r] h, hashedFrom, hload]

/-- The end of linked rows is the genesis or a hash of a string that `verify` has hashed. -/
theorem endHash_cases {rows : List AuditRow} (h : Linked sha256 fl genesisHash rows) :
    rows = [] ∨ ∃ s ∈ hashed sha256 fl rows, endHash genesisHash rows = sha256 s := by
  rcases List.eq_nil_or_concat rows with rfl | ⟨init, r, rfl⟩
  · exact .inl rfl
  · rw [List.concat_eq_append] at h ⊢
    obtain ⟨hinit, -, detail, hload, hhash⟩ := (linked_concat sha256 fl).mp h
    refine .inr ⟨_, ?_, (endHash_concat ..).trans hhash⟩
    rw [hashed, hashedFrom_concat sha256 fl hinit hload]
    simp

theorem length_genesisHash : genesisHash.length = 64 := by
  unfold genesisHash
  simp only [String.length_ofList, List.length_replicate]

theorem length_endHash {given : List String} (hg : HashOn sha256 given) {rows : List AuditRow}
    (h : Linked sha256 fl genesisHash rows) (hsub : hashed sha256 fl rows ⊆ given) :
    (endHash genesisHash rows).length = 64 := by
  rcases endHash_cases sha256 fl h with rfl | ⟨s, hs, heq⟩
  · exact length_genesisHash
  · rw [heq]
    exact hg.length s (hsub hs)

theorem append_inj_of_length {a b c d : String} (hlen : a.length = b.length) (h : a ++ c = b ++ d) :
    a = b ∧ c = d := by
  have hl := congrArg String.toList h
  rw [String.toList_append, String.toList_append] at hl
  obtain ⟨hab, hcd⟩ := List.append_inj hl (by rw [String.length_toList, hlen, String.length_toList])
  exact ⟨String.toList_injective hab, String.toList_injective hcd⟩

/-- Linked rows with the same end say the same: the hash of the last row determines what it says and
the hash of the row before. -/
theorem linked_determines {given : List String} (hg : HashOn sha256 given)
    {rows rows' : List AuditRow} (h : Linked sha256 fl genesisHash rows)
      (h' : Linked sha256 fl genesisHash rows') (hsub : hashed sha256 fl rows ⊆ given)
      (hsub' : hashed sha256 fl rows' ⊆ given)
      (hend : endHash genesisHash rows = endHash genesisHash rows') :
    rows.map (event fl) = rows'.map (event fl) := by
  induction rows using List.reverseRecOn generalizing rows' with
  | nil =>
    rcases endHash_cases sha256 fl h' with rfl | ⟨s, hs, heq⟩
    · rfl
    · exact absurd (heq.symm.trans hend.symm) (hg.ne_genesis s (hsub' hs))
  | append_singleton init r ih =>
    rcases List.eq_nil_or_concat rows' with rfl | ⟨init', r', rfl⟩
    · rcases endHash_cases sha256 fl h with hnil | ⟨s, hs, heq⟩
      · simp at hnil
      · exact absurd (heq.symm.trans hend) (hg.ne_genesis s (hsub hs))
    · rw [List.concat_eq_append] at h' hsub' hend ⊢
      obtain ⟨hinit, hprev, detail, hload, hhash⟩ := (linked_concat sha256 fl).mp h
      obtain ⟨hinit', hprev', detail', hload', hhash'⟩ := (linked_concat sha256 fl).mp h'
      rw [hashed, hashedFrom_concat sha256 fl hinit hload, List.append_subset] at hsub
      rw [hashed, hashedFrom_concat sha256 fl hinit' hload', List.append_subset] at hsub'
      rw [endHash_concat, endHash_concat] at hend
      have htext := hg.injective (hsub.2 (List.mem_singleton_self _))
        (hsub'.2 (List.mem_singleton_self _)) (hhash.symm.trans (hend.trans hhash'))
      have hlen := (length_endHash sha256 fl hg hinit hsub.1).trans
        (length_endHash sha256 fl hg hinit' hsub'.1).symm
      obtain ⟨hp, hc⟩ := append_inj_of_length hlen htext
      obtain ⟨hts, hactor, haction, htarget, hdetail⟩ :=
        canonical_injective (loads_sorted hload) (loads_sorted hload') hc
      have hevent : event fl r = event fl r' := by
        simp only [event, hload, hload', Option.map_some, hts, hactor, haction, htarget, hdetail,
          hprev, hprev', hp, hend]
      rw [List.map_append, List.map_append, ih hinit hinit' hsub.1 hsub'.1 hp, List.map_singleton,
        List.map_singleton, hevent]

/-- **Verified rows are determined by their last hash.** Of two lists of rows for which `verify`
returns ok, the last rows with the same hash, the events are the same one by one; so rows that say
something else, with the last hash in place, are not verified. -/
theorem verify_determines {rows rows' : List AuditRow}
    (hg : HashOn sha256 (hashed sha256 fl rows ++ hashed sha256 fl rows'))
    (h : Verified sha256 fl rows)
    (hlast : rows.getLast?.map AuditRow.hash = rows'.getLast?.map AuditRow.hash) :
    (Verified sha256 fl rows' →
      rows.map (event fl) = rows'.map (event fl) ∧ rows.length = rows'.length) ∧
      (rows.map (event fl) ≠ rows'.map (event fl) → ¬ Verified sha256 fl rows') := by
  have hend : endHash genesisHash rows = endHash genesisHash rows' := by
    unfold endHash
    rw [hlast]
  have hsame : Verified sha256 fl rows' → rows.map (event fl) = rows'.map (event fl) := by
    intro h'
    exact linked_determines sha256 fl hg ((verified_iff sha256 fl).mp h)
      ((verified_iff sha256 fl).mp h')
      (List.subset_append_left ..) (List.subset_append_right ..) hend
  refine ⟨fun h' => ⟨hsame h', ?_⟩, fun hne h' => hne (hsame h')⟩
  simpa using congrArg List.length (hsame h')

/-- A key is created and revoked. -/
def keyRows : List AuditRow :=
  [⟨1, "2026-01-01T00:00:00+00:00", "cli", "key.create", some "key-1", "\x7b\"label\": \"a\"\x7d",
      genesisHash, "e0f7e3ba74e19bf18e71e4532c577c3d783e92edbcc3e7df812d9092c6ca55fc"⟩,
    ⟨2, "2026-01-01T00:00:01+00:00", "cli", "key.revoke", some "key-1", "\x7b\x7d",
      "e0f7e3ba74e19bf18e71e4532c577c3d783e92edbcc3e7df812d9092c6ca55fc",
      "8b2a23f3a5ceb88e7e11fa3a23293c4d7ceaa9ec3da41607c348466114bd16ac"⟩]

def createText : String :=
  "\x7b\"action\":\"key.create\",\"actor\":\"cli\",\"detail\":\x7b\"label\":\"a\"\x7d," ++
    "\"target\":\"key-1\",\"ts\":\"2026-01-01T00:00:00+00:00\"\x7d"

def revokeText : String :=
  "\x7b\"action\":\"key.revoke\",\"actor\":\"cli\",\"detail\":\x7b\x7d," ++
    "\"target\":\"key-1\",\"ts\":\"2026-01-01T00:00:01+00:00\"\x7d"

/-- The digests of the strings that are hashed for `keyRows`, and for its second row alone. -/
def keyDigests : List (String × String) :=
  [(genesisHash ++ createText, "e0f7e3ba74e19bf18e71e4532c577c3d783e92edbcc3e7df812d9092c6ca55fc"),
    ("e0f7e3ba74e19bf18e71e4532c577c3d783e92edbcc3e7df812d9092c6ca55fc" ++ revokeText,
      "8b2a23f3a5ceb88e7e11fa3a23293c4d7ceaa9ec3da41607c348466114bd16ac"),
    (genesisHash ++ revokeText, "6ea30c412eff4769400ac223cbc56b2df3ab2195d66e8b42b2e15d2738a07041")]

def keySha256 (s : String) : String := (keyDigests.lookup s).getD ""

/-- The same rows under other ids, the first detail written without its space. -/
def keyRowsCopy : List AuditRow :=
  keyRows.map fun r => { r with
    id := r.id + 10
    detail := if r.id = 1 then "\x7b\"label\":\"a\"\x7d" else r.detail }

theorem hashOn_of_forall {given : List String}
    (h : ∀ s ∈ given, sha256 s ≠ genesisHash ∧ (sha256 s).length = 64 ∧
      ∀ t ∈ given, sha256 s = sha256 t → s = t) : HashOn sha256 given :=
  ⟨fun s hs t ht => (h s hs).2.2 t ht, fun s hs => (h s hs).1, fun s hs => (h s hs).2.1⟩

theorem verify_determines_keyRows :
    verify keySha256 Floats.exact keyRows = some ⟨true, 2, none⟩ ∧
      verify keySha256 Floats.exact keyRowsCopy = some ⟨true, 2, none⟩ ∧
      keyRows.map (event Floats.exact) = keyRowsCopy.map (event Floats.exact) ∧
      ¬ Verified keySha256 Floats.exact keyRows.tail := by
  have hok : verify keySha256 Floats.exact keyRows = some ⟨true, 2, none⟩ := by decide +kernel
  have hcopy : verify keySha256 Floats.exact keyRowsCopy = some ⟨true, 2, none⟩ := by decide +kernel
  have hall : HashOn keySha256 (keyDigests.map Prod.fst) := hashOn_of_forall _ (by decide +kernel)
  have hrows : hashed keySha256 Floats.exact keyRows ⊆ keyDigests.map Prod.fst := by decide +kernel
  have hrows' : hashed keySha256 Floats.exact keyRowsCopy ⊆ keyDigests.map Prod.fst := by
    decide +kernel
  have htail : hashed keySha256 Floats.exact keyRows.tail ⊆ keyDigests.map Prod.fst := by
    decide +kernel
  have hgiven := hall.mono _ (List.append_subset.mpr ⟨hrows, hrows'⟩)
  have hgiven' := hall.mono _ (List.append_subset.mpr ⟨hrows, htail⟩)
  have hsame := verify_determines _ _ hgiven ⟨_, hok, rfl⟩ (by decide +kernel)
  have hdeleted := verify_determines _ _ hgiven' ⟨_, hok, rfl⟩ (by decide +kernel)
  refine ⟨hok, hcopy, (hsame.1 ⟨_, hcopy, rfl⟩).1, hdeleted.2 ?_⟩
  intro h
  exact absurd (congrArg List.length h) (by decide)

end AuditLog
end InferenceEngine
