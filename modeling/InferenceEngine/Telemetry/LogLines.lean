import InferenceEngine.Lib.JsonLines
import InferenceEngine.Telemetry.LogBuffer
import InferenceEngine.Telemetry.LogRedaction

/-!
# Telemetry.LogLines

The two handlers of the root logger: `JsonFormatter` prints a record as a line of JSON,
`LogCollector` keeps what `_record_dict` makes of it in its ring and in `log_events`.

* `sinks_conceal`: records that differ in credentials alone leave the same lines, the same ring and
  the same table.
* `stream_read_back`: what a process prints is split into its lines again, one for each record, and
  an object with the redacted texts is read from each.
-/

namespace InferenceEngine
namespace LogLines

open Json Lts LogRedaction

variable {F : Type}

inductive Attr (F : Type) where
  | text (s : String)
  | other (v : Value F)

structure Record (F : Type) where
  name : String
  levelname : String
  levelno : Nat
  created : F
  /-- `getMessage()`. -/
  message : String
  /-- `__dict__`. -/
  attributes : Dict String (Attr F)
  nodup : attributes.keys.Nodup
  /-- The texts of `exc_info` and `stack_info`, if they are set. -/
  excInfo : Option String
  stackInfo : Option String

def redact (s : String) : String := .ofList (redactSecrets s.toList)

def str (s : String) : Value F := .str (Text.ofString s)

/-- `d[k] = text`, if there is one. -/
def setText {κ : Type} [DecidableEq κ] (d : Dict κ (Value F)) (k : κ) (text : Option String) :
    Dict κ (Value F) :=
  match text with
  | some text => d.set k (str text)
  | none => d

section Formatter

/-- `_RESERVED`. -/
def reserved : List String :=
  ["name", "msg", "args", "levelname", "levelno", "pathname", "filename", "module", "exc_info",
    "exc_text", "stack_info", "lineno", "funcName", "created", "msecs", "relativeCreated",
    "thread", "threadName", "processName", "process", "taskName"]

/-- Is an attribute printed? -/
def admitted (key : String) : Bool := !(key ∈ reserved) && key.toList.head? != some '_'

def Attr.printed : Attr F → Value F
  | .text s => str (redact s)
  | .other v => v

/-- The attributes of the record are merged into what is printed. -/
def merge (payload : Dict Text (Value F)) (attributes : Dict String (Attr F)) :
    Dict Text (Value F) :=
  attributes.foldl (fun d a => if admitted a.1 then d.set
    (Text.ofString a.1) a.2.printed else d) payload

variable (isoformat : F → String)

/-- What is printed of every record. -/
def base (r : Record F) : Dict Text (Value F) :=
  [(Text.ofString "ts", str (isoformat r.created)), (Text.ofString "level", str r.levelname),
    (Text.ofString "logger", str r.name), (Text.ofString "event", str (redact r.message))]

/-- What `format` dumps. -/
def payload (r : Record F) : Dict Text (Value F) :=
  let merged := merge (base isoformat r) r.attributes
  let traced := setText merged (Text.ofString "exc_info") r.excInfo
  setText traced (Text.ofString "stack") (r.stackInfo.filter (· ≠ ""))

/-- `JsonFormatter.format`. -/
def format (fl : Floats F) (r : Record F) : List Char :=
  write fl .spaced (.obj (payload isoformat r))

end Formatter

section Collector

/-- `_STRUCTURED_FIELDS`. -/
def structuredFields : List String :=
  ["request_id", "route", "model", "key_id", "category", "stage", "detail"]

/-- A value as the collector takes it, if it is not `None`. -/
def Attr.taken : Attr F → Option (Value F)
  | .text s => some (str s)
  | .other .null => none
  | .other v => some v

/-- The fields are lifted from the attributes. -/
def lift (attributes : Dict String (Attr F)) (fields : List String) (d : Dict String (Value F)) :
    Dict String (Value F) :=
  fields.foldl (fun d field =>
    match (attributes.get field).bind Attr.taken with
    | some v => d.set field v
    | none => d) d

/-- `_record_dict`. -/
def recordDict (r : Record F) : Dict String (Value F) :=
  let taken : Dict String (Value F) :=
    [("ts", .float r.created), ("level", str r.levelname), ("logger", str r.name),
      ("event", str (redact r.message))]
  setText (lift r.attributes structuredFields taken) "stacktrace" r.excInfo

end Collector

section System

variable (fl : Floats F) (isoformat : F → String) (cfg : LogBuffer.Settings)

structure St (F : Type) where
  console : List Char
  log : LogBuffer.St (Dict String (Value F))

inductive Event (F : Type) where
  /-- A record is handled; how the write of its row ends, if it is written. -/
  | emit (record : Record F) (write : LogBuffer.Write)
  | setPersist (on : Bool)
  | restart

/-- What the event is to the collector. -/
def Event.captured : Event F → LogBuffer.Event (Dict String (Value F))
  | .emit record write => .emit ⟨record.levelno, recordDict record⟩ write
  | .setPersist on => .setPersist on
  | .restart => .restart

/-- The line that is printed. -/
def Event.printed : Event F → List Char
  | .emit record _ => format isoformat fl record ++ ['\n']
  | .setPersist _ => []
  | .restart => []

def Event.record? : Event F → Option (Record F)
  | .emit record _ => some record
  | .setPersist _ => none
  | .restart => none

def step (s : St F) (e : Event F) : Option (St F) :=
  (LogBuffer.step cfg s.log e.captured).map fun log => ⟨s.console ++ e.printed fl isoformat, log⟩

def init : St F := ⟨[], LogBuffer.init⟩

end System

section Concealed

/-- A value that differs in credentials alone, and not where the collector takes it as it is. -/
inductive SameAttr : String × Attr F → String × Attr F → Prop where
  | same (a : String × Attr F) : SameAttr a a
  | text {key s s' : String} (hkey : key ∉ structuredFields) (h : Veiled s.toList s'.toList) :
      SameAttr (key, .text s) (key, .text s')

/-- Records that differ in credentials alone. -/
structure SameRecord (r r' : Record F) : Prop where
  name : r.name = r'.name
  levelname : r.levelname = r'.levelname
  levelno : r.levelno = r'.levelno
  created : r.created = r'.created
  message : Veiled r.message.toList r'.message.toList
  attributes : List.Forall₂ SameAttr r.attributes r'.attributes
  excInfo : r.excInfo = r'.excInfo
  stackInfo : r.stackInfo = r'.stackInfo

inductive SameEvent : Event F → Event F → Prop where
  | same (e : Event F) : SameEvent e e
  | emit {r r' : Record F} (h : SameRecord r r') (write : LogBuffer.Write) :
      SameEvent (.emit r write) (.emit r' write)

theorem redact_same {s s' : String} (h : Veiled s.toList s'.toList) : redact s = redact s' := by
  unfold redact
  rw [redact_veiled h]

theorem merge_same {as as' : Dict String (Attr F)} (h : List.Forall₂ SameAttr as as')
    (d : Dict Text (Value F)) : merge d as = merge d as' := by
  unfold merge
  induction h generalizing d with
  | nil => rfl
  | @cons a a' as as' ha _ ih =>
    have hfirst : a.1 = a'.1 ∧ a.2.printed = a'.2.printed := by
      cases ha with
      | same => exact ⟨rfl, rfl⟩
      | text _ hs => exact ⟨rfl, congrArg str (redact_same hs)⟩
    rw [List.foldl_cons, List.foldl_cons, hfirst.1, hfirst.2]
    exact ih _

theorem get_same {as as' : Dict String (Attr F)} (h : List.Forall₂ SameAttr as as') {field : String}
    (hfield : field ∈ structuredFields) : as.get field = as'.get field := by
  induction h with
  | nil => rfl
  | @cons a a' as as' ha _ ih =>
    rw [Dict.get_cons, Dict.get_cons, ih]
    cases ha with
    | same => rfl
    | @text key s s' hkey _ =>
      have hne : field ≠ key := by
        rintro rfl
        exact hkey hfield
      rw [if_neg hne, if_neg hne]

theorem payload_same (isoformat : F → String) {r r' : Record F} (h : SameRecord r r') :
    payload isoformat r = payload isoformat r' := by
  unfold payload base
  rw [h.name, h.levelname, h.created, redact_same h.message, h.excInfo, h.stackInfo]
  dsimp only
  rw [merge_same h.attributes]

theorem lift_same {as as' : Dict String (Attr F)} (h : List.Forall₂ SameAttr as as')
    {fields : List String} (hfields : ∀ field ∈ fields, field ∈ structuredFields)
      (d : Dict String (Value F)) :
    lift as fields d = lift as' fields d := by
  unfold lift
  induction fields generalizing d with
  | nil => rfl
  | cons field fields ih =>
    obtain ⟨hfield, hfields⟩ := List.forall_mem_cons.mp hfields
    rw [List.foldl_cons, List.foldl_cons, get_same h hfield]
    exact ih hfields _

theorem recordDict_same {r r' : Record F} (h : SameRecord r r') : recordDict r = recordDict r' := by
  unfold recordDict
  rw [h.name, h.levelname, h.created, redact_same h.message, h.excInfo]
  dsimp only
  rw [lift_same h.attributes fun _ hfield => hfield]

variable {fl : Floats F} {isoformat : F → String} {cfg : LogBuffer.Settings}

theorem step_same {e e' : Event F} (h : SameEvent e e') (s : St F) :
    step fl isoformat cfg s e = step fl isoformat cfg s e' := by
  cases h with
  | same => rfl
  | @emit r r' h write =>
    have hcaptured : (Event.emit r write).captured = (Event.emit r' write).captured := by
      rw [Event.captured, Event.captured, h.levelno, recordDict_same h]
    have hprinted : (Event.emit r write).printed fl isoformat =
        (Event.emit r' write).printed fl isoformat := by
      rw [Event.printed, Event.printed, format, format, payload_same isoformat h]
    rw [step, step, hcaptured, hprinted]

/-- Histories that differ in credentials alone, in a message or in a text that is not lifted into a
column, leave the same lines, the same ring and the same rows. -/
theorem sinks_conceal {es es' : List (Event F)} (h : List.Forall₂ SameEvent es es') {s t : St F}
    (hrun : Run (step fl isoformat cfg) s es t) : Run (step fl isoformat cfg) s es' t := by
  induction hrun generalizing es' with
  | refl =>
    cases h
    exact .refl
  | cons hstep _ ih =>
    cases h with
    | cons hfirst hrest => exact .cons (step_same hfirst _ ▸ hstep) (ih hrest)

end Concealed

section Stream

variable {fl : Floats F} {isoformat : F → String} {cfg : LogBuffer.Settings} {r : Record F}

theorem nodup_setText {κ : Type} [DecidableEq κ] {d : Dict κ (Value F)} (h : d.keys.Nodup) (k : κ)
    (text : Option String) : (setText d k text).keys.Nodup := by
  cases text with
  | none => exact h
  | some text => exact Dict.nodup_keys_set h k _

theorem get_setText {κ : Type} [DecidableEq κ] (d : Dict κ (Value F)) (k k' : κ)
    (text : Option String) : (setText d k text).get k' = if k' =
      k then (text.map str).or (d.get k') else d.get k' := by
  cases text with
  | none => exact (ite_self _).symm
  | some text => exact Dict.get_set d k k' _

theorem nodup_merge {d : Dict Text (Value F)} (h : d.keys.Nodup) (as : Dict String (Attr F)) :
    (merge d as).keys.Nodup := by
  unfold merge
  induction as generalizing d with
  | nil => exact h
  | cons a as ih =>
    refine ih ?_
    dsimp only
    split
    · exact Dict.nodup_keys_set h _ _
    · exact h

theorem get_merge {as : Dict String (Attr F)} (has : as.keys.Nodup) (d : Dict Text (Value F))
    (key : String) : (merge d as).get (Text.ofString key) =
      (((as.get key).filter fun _ => admitted key).map Attr.printed).or
      (d.get (Text.ofString key)) := by
  unfold merge
  induction as generalizing d with
  | nil => rfl
  | cons a as ih =>
    obtain ⟨hfirst, has⟩ := List.nodup_cons.mp has
    rw [List.foldl_cons, ih has, Dict.get_cons]
    by_cases hkey : key = a.1
    · subst hkey
      rw [Dict.get_eq_none hfirst, if_pos rfl]
      cases hadm : admitted a.1 with
      | true => simp [Dict.get_set, Option.filter]
      | false => simp [Option.filter]
    · have hne : Text.ofString key ≠ Text.ofString a.1 := fun h => hkey (Text.ofString_injective h)
      rw [if_neg hkey]
      split
      · rw [Dict.get_set, if_neg hne]
      · rfl

theorem nodup_base (isoformat : F → String) (r : Record F) : (base isoformat r).keys.Nodup := by
  have hnames : (["ts", "level", "logger", "event"].map Text.ofString).Nodup :=
    List.Nodup.map Text.ofString_injective (by decide)
  exact hnames

theorem nodup_payload (isoformat : F → String) (r : Record F) : (payload isoformat r).keys.Nodup :=
  nodup_setText (nodup_setText (nodup_merge (nodup_base isoformat r) _) _ _) _ _

structure Shows (items : List (Text × Value F)) (r : Record F) : Prop where
  message : r.attributes.get "event" = none →
    items.lookup (Text.ofString "event") = some (str (redact r.message))
  extra : ∀ key a, (key, a) ∈ r.attributes → admitted key = true →
    (key = "stack" → r.stackInfo.filter (· ≠ "") = none) →
      items.lookup (Text.ofString key) = some a.printed.canon
  trace : ∀ text, r.excInfo = some text → items.lookup (Text.ofString "exc_info") = some (str text)

theorem shows_payload (isoformat : F → String) (r : Record F) :
    Shows (dict (canonItems (payload isoformat r))) r := by
  have hget (key : String) : (dict (canonItems (payload isoformat r))).lookup (Text.ofString key) =
      ((payload isoformat r).get (Text.ofString key)).map Value.canon :=
    lookup_dict_canon (nodup_payload isoformat r) _
  have hother {key key' : String}
      (h : key ≠ key') : Text.ofString key ≠ Text.ofString key' := fun heq =>
    h (Text.ofString_injective heq)
  constructor
  case message =>
    intro hnone
    rw [hget, payload, get_setText, if_neg (hother (by decide)), get_setText,
      if_neg (hother (by decide)), get_merge r.nodup, hnone]
    simp [base, Dict.get_cons, hother]
    rfl
  case extra =>
    intro key a hmem hadm hstack
    have hexc : key ≠ "exc_info" := by
      rintro rfl
      exact absurd hadm (by decide)
    have hmerged := get_merge r.nodup (base isoformat r) key
    rw [Dict.get_of_mem r.nodup hmem] at hmerged
    rw [hget, payload, get_setText]
    split
    · next heq =>
      rw [hstack (Text.ofString_injective heq), get_setText, if_neg (hother hexc), hmerged]
      simp [hadm, Option.filter]
    · rw [get_setText, if_neg (hother hexc), hmerged]
      simp [hadm, Option.filter]
  case trace =>
    intro text htext
    rw [hget, payload, get_setText, if_neg (hother (by decide)), get_setText, if_pos rfl, htext]
    rfl

theorem console_eq {es : List (Event F)} {s t : St F} (h : Run (step fl isoformat cfg) s es t) :
    t.console = s.console ++
      ((es.filterMap Event.record?).map (format isoformat fl)).flatMap (· ++ ['\n']) := by
  induction h with
  | refl => simp
  | @cons s s' t e es hstep _ ih =>
    obtain ⟨log, -, rfl⟩ := Option.map_eq_some_iff.mp hstep
    rw [ih]
    cases e with
    | emit record write =>
      rw [show (Event.emit record write :: es).filterMap Event.record? =
        record :: es.filterMap Event.record? from rfl]
      simp [Event.printed]
    | setPersist on =>
      rw [List.filterMap_cons_none rfl]
      simp [Event.printed]
    | restart =>
      rw [List.filterMap_cons_none rfl]
      simp [Event.printed]

/-- What a process prints is split into lines again, one for each record, and from each an object is
read with the message and the attributes of the record, redacted. -/
theorem stream_read_back {es : List (Event F)} {t : St F}
    (h : Run (step fl isoformat cfg) init es t) :
    List.Forall₂ (fun line r => ∃ items,
      loads fl (.ofList line) = some (.obj items) ∧ Shows items r)
      (Py.splitlines t.console) (es.filterMap Event.record?) := by
  have hlines : ∀ line ∈ (es.filterMap Event.record?).map (format isoformat fl), ∀ c ∈ line,
      Printable c := by
    intro line hline
    obtain ⟨r, -, rfl⟩ := List.mem_map.mp hline
    exact printable_write fl .spaced _
  rw [console_eq h, init, List.nil_append, splitlines_lines hlines, List.forall₂_map_left_iff,
    List.forall₂_same]
  exact fun r _ => ⟨_, loads_write fl .spaced _, shows_payload isoformat r⟩

end Stream

/-! ## A handshake with a key in its URL -/

def handshakeTime : NumLit := ⟨false, 1700000000, ['5'], none⟩

theorem handshakeTime_float : handshakeTime.isFloat = true ∧ handshakeTime.WellFormed := by decide

def handshakePath (key : String) : Dict String (Attr ExactFloat) :=
  [("path", .text ("/ws/feed?API_Key=" ++ key)), ("detail", .other .null)]

theorem handshakePath_nodup (key : String) : (handshakePath key).keys.Nodup :=
  (by decide : ["path", "detail"].Nodup)

/-- The record of a WebSocket handshake, in which the dashboard's key stands. -/
def handshake (key : String) : Record ExactFloat where
  name := "uvicorn.error"
  levelname := "INFO"
  levelno := 20
  created := ⟨handshakeTime, handshakeTime_float⟩
  message := "WebSocket /ws/feed?api_key=" ++ key ++ "&x=1"
  attributes := handshakePath key
  nodup := handshakePath_nodup key
  excInfo := none
  stackInfo := none

theorem handshake_same : SameRecord (handshake "sk-ie-1") (handshake "another") := by
  have hmessage : Veiled (handshake "sk-ie-1").message.toList
      (handshake "another").message.toList :=
    .tail "WebSocket /ws/feed".toList (.refl _) (.inl rfl)
      (⟨by decide, by decide, Py.forall_of_all (by decide)⟩ : Credential "api_key".toList "sk-ie-1".toList)
      (⟨by decide, by decide, Py.forall_of_all (by decide)⟩ : Credential "api_key".toList "another".toList)
      (endsValue_cons (by decide) _)
  have hpath : Veiled ("/ws/feed?API_Key=" ++ "sk-ie-1").toList
      ("/ws/feed?API_Key=" ++ "another").toList :=
    .tail "/ws/feed".toList (.refl _) (.inl rfl)
      (⟨by decide, by decide, Py.forall_of_all (by decide)⟩ : Credential "API_Key".toList "sk-ie-1".toList)
      (⟨by decide, by decide, Py.forall_of_all (by decide)⟩ : Credential "API_Key".toList "another".toList)
      (fun _ h => by cases h)
  exact ⟨rfl, rfl, rfl, rfl, hmessage,
    .cons (.text (by decide) hpath) (.cons (.same _) .nil), rfl, rfl⟩

theorem sinks_conceal_handshake :
    ∃ t, Run (step Floats.exact (fun _ => "2026-01-01") {}) init [.emit
      (handshake "sk-ie-1") .done, .restart] t ∧
      Run (step Floats.exact (fun _ => "2026-01-01") {}) init [.emit (handshake "another") .done,
      .restart] t := by
  obtain ⟨t, hrun⟩ : ∃ t, Run (step Floats.exact (fun _ => "2026-01-01") {}) init
      [.emit (handshake "sk-ie-1") .done, .restart] t := ⟨_, .cons rfl (.single rfl)⟩
  exact ⟨t, hrun, sinks_conceal (.cons (.emit handshake_same .done) (.cons (.same _) .nil)) hrun⟩

theorem stream_read_back_handshake :
    ∃ t, Run (step Floats.exact (fun _ => "2026-01-01") {}) init [.emit
      (handshake "sk-ie-1") .done] t ∧
      List.Forall₂ (fun line r => ∃ items,
      loads Floats.exact (.ofList line) = some (.obj items) ∧ Shows items r)
        (Py.splitlines t.console) [handshake "sk-ie-1"] := by
  obtain ⟨t, hrun⟩ : ∃ t, Run (step Floats.exact (fun _ => "2026-01-01") {}) init
      [.emit (handshake "sk-ie-1") .done] t := ⟨_, .single rfl⟩
  exact ⟨t, hrun, stream_read_back hrun⟩

end LogLines
end InferenceEngine
