import InferenceEngine.Lib.UriCoding

/-!
# Dashboard.HashRoute

The links of the dashboard, as `useHashRoute.ts` writes and reads them: a view and its segments as a
path after the hash, each encoded by itself, and the parameters as a query. A model's id can hold a
slash, a question mark or a percent sign, and is one segment all the same.

* `link_read_back`: what is read from a link is what the link was written for.
-/

namespace InferenceEngine

namespace HashRoute

open UriCoding

structure Route where
  view : List Char
  segments : List (List Char)
  params : List (List Char × List Char)
deriving DecidableEq, Repr

/-- `decodeURIComponent` of each part; of a malformed one there is none. -/
def decodeParts : List (List Char) → Option (List (List Char))
  | [] => some []
  | part :: parts => (decodeURIComponent part).bind fun x => (decodeParts parts).map (x :: ·)

/-- `hash.replace(/^#\/?/, "")`. -/
def stripHash : List Char → List Char
  | '#' :: '/' :: cs => cs
  | '#' :: cs => cs
  | cs => cs

/-- `raw.split("?", 2)`: what comes after a second question mark is dropped. -/
def splitQuery (raw : List Char) : List Char × List Char :=
  let query := (raw.dropWhile (· ≠ '?')).drop 1
  (raw.takeWhile (· ≠ '?'), query.takeWhile (· ≠ '?'))

def parseHash (hash fallback : List Char) : Route :=
  let raw := stripHash hash
  let pathPart := (splitQuery raw).1
  let query := (splitQuery raw).2
  match decodeParts ((pathPart.splitOn '/').filter (· ≠ [])) with
  -- The whole malformed path is taken for a view that does not exist.
  | none => ⟨pathPart, [], parseQuery query⟩
  | some parts => ⟨parts.headD fallback, parts.tail, parseQuery query⟩

/-- `if (v) q.set(k, v)`. -/
def setValue (q : List (List Char × List Char)) (kv : List Char × Option (List Char)) :
    List (List Char × List Char) :=
  match kv.2 with
  | none => q
  | some v => if v = [] then q else setParam q kv.1 v

def setAll (params : List (List Char × Option (List Char))) : List (List Char × List Char) :=
  params.foldl setValue []

def buildHash (view : List Char) (segments : List (List Char))
    (params : List (List Char × Option (List Char))) :
    List Char :=
  let path := ['/'].intercalate ((view :: segments).map encodeURIComponent)
  let qs := serializeQuery (setAll params)
  '#' :: '/' :: (path ++ if qs = [] then [] else '?' :: qs)

/-! ## The path -/

theorem decodeParts_encode (parts : List (List Char)) :
    decodeParts (parts.map encodeURIComponent) = some parts := by
  induction parts with
  | nil => rfl
  | cons part parts ih =>
    rw [List.map_cons, decodeParts, decodeURIComponent_encode, ih]
    rfl

theorem notMem_path {parts : List (List Char)} :
    '?' ∉ ['/'].intercalate (parts.map encodeURIComponent) := by
  intro h
  rcases Py.mem_intercalate h with h | ⟨part, hpart, h⟩
  · exact absurd h (by decide)
  · obtain ⟨cs, -, rfl⟩ := List.mem_map.mp hpart
    exact notMem_encodeURIComponent (by decide) cs h

/-- The parts that are not empty, whichever of them that leaves. -/
theorem splitOn_path {parts : List (List Char)} (hne : parts ≠ []) :
    ((['/'].intercalate (parts.map encodeURIComponent)).splitOn '/').filter (· ≠ []) =
      (parts.filter (· ≠ [])).map encodeURIComponent := by
  have hsplit : (['/'].intercalate (parts.map encodeURIComponent)).splitOn '/' =
      parts.map encodeURIComponent := by
    refine List.splitOn_intercalate '/' ?_ (by simpa using hne)
    intro part hpart
    obtain ⟨cs, -, rfl⟩ := List.mem_map.mp hpart
    exact notMem_encodeURIComponent (by decide) cs
  rw [hsplit, List.filter_map]
  refine congrArg _ (List.filter_congr fun cs _ => ?_)
  simp [encodeURIComponent_eq_nil]

/-! ## The query -/

theorem setParam_absent {q : List (List Char × List Char)} {k : List Char} (hk : k ∉ q.map (·.1))
    (v : List Char) :
    setParam q k v = q ++ [(k, v)] := by
  refine if_neg fun h => hk ?_
  obtain ⟨kv, hkv, heq⟩ := List.any_eq_true.mp h
  exact List.mem_map.mpr ⟨kv, hkv, of_decide_eq_true heq⟩

/-- What is sent of a parameter: nothing, if it has no value or an empty one. -/
def sent (kv : List Char × Option (List Char)) : Option (List Char × List Char) :=
  match kv.2 with
  | none => none
  | some v => if v = [] then none else some (kv.1, v)

theorem key_of_sent {kv : List Char × Option (List Char)} {p : List Char × List Char}
    (h : sent kv = some p) :
    p.1 = kv.1 := by
  unfold sent at h
  split at h
  · cases h
  · split at h
    · cases h
    · cases h
      rfl

theorem setValue_eq (q : List (List Char × List Char)) (kv : List Char × Option (List Char)) :
    setValue q kv = (sent kv).elim q fun p => setParam q p.1 p.2 := by
  unfold setValue sent
  cases kv.2 with
  | none => rfl
  | some v =>
    dsimp only
    split <;> rfl

theorem setAll_eq {params : List (List Char × Option (List Char))}
    (hkeys : (params.map (·.1)).Nodup) :
    setAll params = params.filterMap sent := by
  suffices h : ∀ q : List (List Char × List Char), (∀ kv ∈ params, kv.1 ∉ q.map (·.1)) →
      params.foldl setValue q = q ++ params.filterMap sent by
    exact h [] (by simp)
  induction params with
  | nil => simp
  | cons kv params ih =>
    intro q hq
    obtain ⟨hkv, hrest⟩ := List.nodup_cons.mp hkeys
    rw [List.foldl_cons, setValue_eq, List.filterMap_cons]
    cases hsent : sent kv with
    | none => exact ih hrest q fun kv' hmem => hq kv' (List.mem_cons_of_mem _ hmem)
    | some p =>
      have hpk := key_of_sent hsent
      have hfresh : p.1 ∉ q.map (·.1) := hpk ▸ hq kv List.mem_cons_self
      refine (ih hrest _ fun kv' hmem => ?_).trans ?_
      · rw [Option.elim_some, setParam_absent hfresh, List.map_append]
        intro hin
        rcases List.mem_append.mp hin with hin | hin
        · exact hq kv' (List.mem_cons_of_mem _ hmem) hin
        · have hkey : kv'.1 = kv.1 := (List.mem_singleton.mp hin).trans hpk
          exact hkv (List.mem_map.mpr ⟨kv', hmem, hkey⟩)
      · rw [Option.elim_some, setParam_absent hfresh, List.append_assoc]
        rfl

theorem splitQuery_build {path qs : List Char} (hpath : '?' ∉ path) (hqs : '?' ∉ qs) :
    splitQuery (path ++ if qs = [] then [] else '?' :: qs) = (path, qs) := by
  have hp : ∀ c ∈ path, (decide (c ≠ '?')) = true := fun c hc => by
    rw [decide_eq_true_eq]
    exact fun h => hpath (h ▸ hc)
  have hq : ∀ c ∈ qs, (decide (c ≠ '?')) = true := fun c hc => by
    rw [decide_eq_true_eq]
    exact fun h => hqs (h ▸ hc)
  unfold splitQuery
  rw [List.takeWhile_append_of_pos hp, List.dropWhile_append_of_pos hp]
  split
  · next hnil =>
    subst hnil
    simp
  · simp only [ne_eq, decide_not, List.takeWhile_cons, List.dropWhile_cons, decide_true,
      Bool.not_true, Bool.false_eq_true, if_false, List.append_nil,
      List.drop_succ_cons, List.drop_zero]
    refine congrArg (path, ·) (List.takeWhile_eq_self_iff.mpr fun c hc => ?_)
    simpa using hq c hc

/-! ## The link -/

/-- What is read from a link: the parts of the path that are not empty, and the parameters. -/
theorem parseHash_buildHash (view : List Char) (segments : List (List Char))
    (params : List (List Char × Option (List Char))) (fallback : List Char) :
    parseHash (buildHash view segments params) fallback =
      ⟨((view :: segments).filter (· ≠ [])).headD fallback,
      ((view :: segments).filter (· ≠ [])).tail,
        setAll params⟩ := by
  have hquery : '?' ∉ serializeQuery (setAll params) :=
    notMem_serialize (by decide) (by decide) (by decide) _
  have hraw : stripHash (buildHash view segments params) =
      ['/'].intercalate ((view :: segments).map encodeURIComponent) ++
        if serializeQuery (setAll params) = [] then []
          else '?' :: serializeQuery (setAll params) := rfl
  unfold parseHash
  simp only [hraw, splitQuery_build notMem_path hquery,
    splitOn_path (List.cons_ne_nil view segments), decodeParts_encode, parseQuery_serialize]

/-- A link to a view is read as it was written, whatever the texts in it are: with each segment as
one, and with every parameter that has a value. -/
theorem link_read_back {view : List Char} (hview : view ≠ []) {segments : List (List Char)}
    {params : List (List Char × Option (List Char))} (hkeys : (params.map (·.1)).Nodup)
      (fallback : List Char) :
    parseHash (buildHash view segments params) fallback =
      ⟨view, segments.filter (· ≠ []), params.filterMap sent⟩ := by
  rw [parseHash_buildHash, setAll_eq hkeys, List.filter_cons_of_pos (by simpa using hview)]
  rfl

theorem link_read_back_modelId :
    parseHash (buildHash "models".toList ["m 1/ü%?".toList] [("x".toList, some "a&b".toList),
      ("y".toList, none)])
      "overview".toList = ⟨"models".toList, ["m 1/ü%?".toList], [("x".toList, "a&b".toList)]⟩ :=
  link_read_back (by decide) (by decide) _

example : buildHash "models".toList ["m 1/ü%".toList] [] =
    "#/models/m%201%2F%C3%BC%25".toList := by decide +kernel

example : parseHash "#/models/%E4%A?x=1".toList [] = ⟨"models/%E4%A".toList, [],
    [("x".toList, "1".toList)]⟩ := by
  decide +kernel

end HashRoute

end InferenceEngine
