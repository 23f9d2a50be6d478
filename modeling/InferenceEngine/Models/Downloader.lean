import InferenceEngine.Lib.Run

/-!
# Models.Downloader

`engine/models/downloader.py`: a file is fetched into `<dest>.part`, from where an earlier attempt
has stopped, and renamed into place. `download` runs in a thread of its own; one step of the machine
below is one thing it does that others can see or that can fail: a look at the cancel event, a
request, a read of the response, a file operation. What the step before has computed is kept in
`Pc`.

* `step`: the machine, and what can go wrong at each of its steps.
* `Traced`: where the machine is, as a function of the `.part` file it has found and of what the
  server answers.
* `run_traced`: every run keeps to it, whatever fails and whenever it is cancelled.
-/

namespace InferenceEngine

namespace Downloader

open Lts

abbrev Bytes := List UInt8

/-- What `_describe` looks at: the class of an exception, its `errno`, and the exception that is its
`reason`. -/
structure Cause where
  typeName : String
  errno : Option Int

structure TransportError where
  cause : Cause
  reason : Option Cause

def describe (exc : TransportError) : String :=
  let cause := exc.reason.getD exc.cause
  match cause.errno with
  | some errno => cause.typeName ++ ", errno " ++ toString errno
  | none => cause.typeName

/-- Every error of the module is `safe`; the others are those of the file system, of `int` and of
the callback. -/
inductive Exc where
  | downloadError (message : String)
  | checksumMismatch (message : String)
  | downloadCancelled
  | other (typeName : String)
  deriving DecidableEq

/-- The `cancel` argument: none, an event, or one with a commit point. -/
inductive Cancel where
  | none
  | event
  | cancelEvent
  deriving DecidableEq

structure Args where
  expectedSha256 : Option String
  chunkBytes : Nat
  cancel : Cancel
  maxBytes : Nat
  /-- `download_chunk_bytes` is at least 8192 -/
  chunkBytes_pos : 0 < chunkBytes

structure Response where
  status : Nat
  contentLength : Option String
  body : Nat → Except TransportError Bytes

inductive Reply where
  | invalidUrl (typeName : String)
  | httpError (code : Nat)
  | networkError (exc : TransportError)
  | response (r : Response)

/-- What a call is given: its arguments, and the server, which is asked for the file from an offset
on. -/
structure Call where
  args : Args
  server : Nat → Reply

/-- `str.isdigit`, of a header (they are latin-1). -/
def isdigit (s : String) : Bool :=
  !s.toList.isEmpty && s.toList.all fun c => c.isDigit || ['²', '³', '¹'].contains c

/-- `int`, of such a text: no superscripts, and not more than 4300 digits. -/
def int (s : String) : Option Nat :=
  if s.toList.all Char.isDigit && decide (s.toList.length ≤ 4300) then
    some (s.toList.foldl (fun n c => n * 10 + (c.toNat - 48)) 0)
  else none

namespace Response

def isPartial (r : Response) : Bool := r.status == 206

/-- The Content-Length; `none` within when there is none that is a number. -/
def length (r : Response) : Except Exc (Option Nat) :=
  match r.contentLength with
  | some s =>
    if isdigit s then
      match int s with
      | some n => .ok (some n)
      | none => .error (.other "ValueError")
    else .ok none
  | none => .ok none

/-- The bytes of its first `n` reads. -/
def received (r : Response) : Nat → Bytes
  | 0 => []
  | n + 1 => r.received n ++ ((r.body n).toOption.getD [])

end Response

/-- The size of the partial file. -/
def resumeFrom (part : Option Bytes) : Nat := part.elim 0 List.length

def isGiven (expected : String) : Bool := expected ≠ ""

namespace Args

/-- `total and total > max_bytes`. -/
def exceeds (a : Args) : Option Nat → Bool
  | some total => a.maxBytes ≠ 0 && total ≠ 0 && total > a.maxBytes
  | none => false

/-- The checksum is the expected one, if one is expected. -/
def accepts (a : Args) (digest : String) : Bool :=
  match a.expectedSha256 with
  | some expected => !isGiven expected || digest.toLower == expected.toLower
  | none => true

end Args

structure Loop where
  response : Response
  total : Option Nat
  reads : Nat
  downloaded : Nat

/-- What the thread does next. -/
inductive Pc where
  | enter
  | checkFirst (resumeFrom : Nat)
  | urlopen (resumeFrom : Nat)
  | restart
  | checkResponse (resumeFrom : Nat) (r : Response)
  | discard (resumeFrom : Nat) (r : Response)
  | openPart (resumeFrom : Nat) (r : Response)
  | checkLoop (l : Loop)
  | read (l : Loop)
  | checkRead (l : Loop) (chunk : Bytes)
  | write (l : Loop) (chunk : Bytes)
  | checkWritten (l : Loop)
  | progress (l : Loop)
  | close
  | checkClosed
  | checkHash (hashed : Bytes)
  | hash (hashed : Bytes)
  | verify (hashed : Bytes)
  | promote (digest : String)
  | replace (digest : String)
  | ended (result : Except Exc String)

namespace Pc

def isEnded : Pc → Bool
  | .ended _ => true
  | _ => false

/-- `download` has returned. -/
def isOk : Pc → Bool
  | .ended (.ok _) => true
  | _ => false

end Pc

/-- The two files, the depth of the recursion, and where the thread is. -/
structure St where
  part : Option Bytes
  dest : Option Bytes
  depth : Nat
  pc : Pc

/-- What is not up to the thread: whether the event is set when it looks, and whether the operation
fails (a file operation, or the callback). When a write fails, only so much of the file has been
written. -/
inductive Choice where
  | go (isSet : Bool)
  | fail (typeName : String) (kept : Nat)

namespace St

def start (part dest : Option Bytes) : St := ⟨part, dest, 0, .enter⟩

def goto (s : St) (pc : Pc) : St := { s with pc }

def raise (s : St) (e : Exc) : St := { s with pc := .ended (.error e) }

/-- `_check`. -/
def check (s : St) (cancel : Cancel) (isSet : Bool) (next : Pc) : St :=
  if cancel ≠ .none ∧ isSet then s.raise .downloadCancelled else s.goto next

/-- `part.replace(dest)`, and the end of `download`. -/
def promoted (s : St) (digest : String) : St :=
  { s with part := none, dest := s.part, pc := .ended (.ok digest) }

end St

section Machine

variable (sha256 : Bytes → String) (c : Call)

namespace St

/-- The reply to the request. -/
def opened (s : St) (resumeFrom : Nat) : Reply → St
  | .invalidUrl typeName => s.raise (.downloadError ("invalid model URL (" ++ typeName ++ ")"))
  | .httpError code =>
    if resumeFrom ≠ 0 ∧ code = 416 then s.goto .restart
    else s.raise (.downloadError ("HTTP " ++ toString code ++ " fetching model"))
  | .networkError exc =>
    s.raise (.downloadError ("network error fetching model (" ++ describe exc ++ ")"))
  | .response r => s.goto (.checkResponse resumeFrom r)

/-- The size that is announced, and the error when there is none or when it is over the limit. -/
def announced (resumeFrom : Nat) (r : Response) : Except Exc (Option Nat) :=
  match r.length with
  | .error e => .error e
  | .ok length =>
    let total := length.map (· + if r.isPartial then resumeFrom else 0)
    if c.args.exceeds total then
      .error (.downloadError ("model exceeds max_model_bytes (" ++ toString (total.getD 0) ++
        " > " ++ toString c.args.maxBytes ++ ")"))
    else .ok total

/-- `open(part, mode)`, and the loop. -/
def partOpened (s : St) (resumeFrom : Nat) (r : Response) (total : Option Nat) : St :=
  { s with
    part := if resumeFrom ≠ 0 ∧ r.isPartial then some (s.part.getD []) else some []
    pc := .checkLoop ⟨r, total, 0, resumeFrom⟩ }

/-- `fh.write(chunk)`, and the check of the size. -/
def written (s : St) (l : Loop) (chunk : Bytes) : St :=
  let s := { s with part := some (s.part.getD [] ++ chunk) }
  let l := { l with reads := l.reads + 1, downloaded := l.downloaded + chunk.length }
  if c.args.maxBytes ≠ 0 ∧ l.downloaded > c.args.maxBytes then
    s.raise (.downloadError ("model exceeds max_model_bytes (" ++ toString c.args.maxBytes ++ ")"))
  else s.goto (.checkWritten l)

/-- A chunk of the part file goes into the digest. -/
def hashed (s : St) (done : Bytes) : St :=
  let chunk := ((s.part.getD []).drop done.length).take c.args.chunkBytes
  s.goto (if chunk.isEmpty then .verify done else .checkHash (done ++ chunk))

def verified (s : St) (digest : String) : St :=
  if c.args.accepts digest then s.goto (.promote digest)
  else s.raise (.checksumMismatch
    ("checksum mismatch: the file's SHA-256 (" ++ digest ++ ") is not the expected value"))

/-- `_promote`: with a commit point the look at the event and the rename are one step. -/
def promote (s : St) (isSet : Bool) (digest : String) : St :=
  match c.args.cancel with
  | .cancelEvent => if isSet then s.raise .downloadCancelled else s.promoted digest
  | cancel => s.check cancel isSet (.replace digest)

/-- The next step, when nothing fails. -/
def go (s : St) (isSet : Bool) : Option St :=
  match s.pc with
  | .enter => some (s.goto (.checkFirst (resumeFrom s.part)))
  | .checkFirst resumeFrom => some (s.check c.args.cancel isSet (.urlopen resumeFrom))
  | .urlopen resumeFrom => some (s.opened resumeFrom (c.server resumeFrom))
  | .restart => some { s with part := none, depth := s.depth + 1, pc := .enter }
  | .checkResponse resumeFrom r => some (s.check c.args.cancel isSet (.discard resumeFrom r))
  | .discard resumeFrom r =>
    if resumeFrom ≠ 0 ∧ r.isPartial = false then some { s with part := none, pc := .openPart 0 r }
    else some (s.goto (.openPart resumeFrom r))
  | .openPart resumeFrom r =>
    match announced c resumeFrom r with
    | .ok total => some (s.partOpened resumeFrom r total)
    | .error e => some (s.raise e)
  | .checkLoop l => some (s.check c.args.cancel isSet (.read l))
  | .read l =>
    match l.response.body l.reads with
    | .ok chunk => some (s.goto (.checkRead l chunk))
    | .error exc =>
      some (s.raise (.downloadError ("network error reading model (" ++ describe exc ++ ")")))
  | .checkRead l chunk =>
    some (s.check c.args.cancel isSet (if chunk.isEmpty then .close else .write l chunk))
  | .write l chunk => some (s.written c l chunk)
  | .checkWritten l => some (s.check c.args.cancel isSet (.progress l))
  | .progress l => some (s.goto (.checkLoop l))
  | .close => some (s.goto .checkClosed)
  | .checkClosed => some (s.check c.args.cancel isSet (.checkHash []))
  | .checkHash done => some (s.check c.args.cancel isSet (.hash done))
  | .hash done => some (s.hashed c done)
  | .verify done => some (s.verified c (sha256 done))
  | .promote digest => some (s.promote c isSet digest)
  | .replace digest => some (s.promoted digest)
  | .ended _ => none

/-- The next step, when what it does fails. -/
def fail (s : St) (typeName : String) (kept : Nat) : Option St :=
  let failed := s.raise (.other typeName)
  match s.pc with
  | .enter | .restart | .progress _ | .hash _ | .replace _ => some failed
  | .discard resumeFrom r => if resumeFrom ≠ 0 ∧ r.isPartial = false then some failed else none
  | .openPart resumeFrom r =>
    match announced c resumeFrom r with
    | .ok _ => some failed
    | .error _ => none
  | .write _ chunk => some { failed with part := some ((s.part.getD [] ++ chunk).take kept) }
  | .close => some { failed with part := s.part.map (·.take kept) }
  | .promote _ => if c.args.cancel = .cancelEvent then some failed else none
  | _ => none

end St

def step (s : St) : Choice → Option St
  | .go isSet => s.go sha256 c isSet
  | .fail typeName kept => s.fail c typeName kept

end Machine

/-- What fails ends the call, and leaves the destination alone. -/
theorem fail_spec {c : Call} {s s' : St} {typeName : String} {kept : Nat}
    (hst : s.fail c typeName kept = some s') :
    s.pc.isEnded = false ∧ (∃ e, s'.pc = .ended (.error e)) ∧ s'.dest = s.dest := by
  cases hpc : s.pc with
  | enter | restart | progress | hash | replace | write | close =>
    simp only [St.fail, hpc, Option.some.injEq] at hst
    subst hst
    exact ⟨rfl, ⟨_, rfl⟩, rfl⟩
  | discard | openPart | promote =>
    simp only [St.fail, hpc] at hst
    split at hst
    · cases hst
      exact ⟨rfl, ⟨_, rfl⟩, rfl⟩
    · cases hst
  | checkFirst | urlopen | checkResponse | checkLoop | read | checkRead | checkWritten | checkClosed
  | checkHash | verify | ended =>
    simp only [St.fail, hpc] at hst
    cases hst

/-! ## What a call does to the files -/

/-- The response a call gets, with the offset it has asked for: after a 416 it asks for the whole
file. -/
def Call.answered (c : Call) (part : Option Bytes) : Option (Nat × Response) :=
  match c.server (resumeFrom part) with
  | .response r => some (resumeFrom part, r)
  | .httpError code =>
    if resumeFrom part ≠ 0 ∧ code = 416 then
      match c.server 0 with
      | .response r => some (0, r)
      | _ => none
    else none
  | _ => none

/-- What the body of the response is appended to. -/
def base (part : Option Bytes) (k : Nat) (r : Response) : Bytes :=
  if k ≠ 0 ∧ r.isPartial then part.getD [] else []

/-- The first `n` reads return something. -/
def Response.Going (r : Response) (n : Nat) : Prop :=
  ∀ i < n, ∃ chunk, r.body i = .ok chunk ∧ chunk ≠ []

/-- The reads return `body`, and then nothing. -/
def Response.Delivers (r : Response) (body : Bytes) : Prop :=
  ∃ n, r.Going n ∧ r.body n = .ok [] ∧ r.received n = body

section Trace

variable (sha256 : Bytes → String) (c : Call) (part dest : Option Bytes)

/-- The checks of the size let the file pass. -/
structure Fits (k : Nat) (r : Response) (body : Bytes) : Prop where
  announced : ∃ total, St.announced c (base part k r).length r = .ok total
  limit : c.args.maxBytes ≠ 0 → body ≠ [] → (base part k r ++ body).length ≤ c.args.maxBytes

/-- The file that is put together. -/
def Assembled (f : Bytes) : Prop :=
  ∃ k r body, c.answered part = some (k, r) ∧ r.Delivers body ∧ Fits c part k r body ∧
    f = base part k r ++ body

/-- What a call that fails can leave of the partial file: nothing, what it was, or as much of the
new one as was written. -/
def LeftOver (left : Option Bytes) : Prop :=
  left = none ∨ left = part ∨
    ∃ k r n m, c.answered part = some (k, r) ∧ r.Going n ∧
      left = some ((base part k r ++ r.received n).take m)

/-- Before the request is answered: the first one, or the second one after a 416. -/
def Fresh (s : St) : Prop :=
  s.depth = 0 ∧ s.part = part ∨
    s.depth = 1 ∧ s.part = none ∧ resumeFrom part ≠ 0 ∧ c.server (resumeFrom part) = .httpError 416

structure Looping (l : Loop) (now : Option Bytes) (k : Nat) : Prop where
  answered : c.answered part = some (k, l.response)
  total : St.announced c (base part k l.response).length l.response = .ok l.total
  going : l.response.Going l.reads
  written : now = some (base part k l.response ++ l.response.received l.reads)
  downloaded : l.downloaded = (base part k l.response ++ l.response.received l.reads).length
  limit : c.args.maxBytes ≠ 0 → l.reads ≠ 0 → l.downloaded ≤ c.args.maxBytes

/-- What the place of the thread says about the files. -/
def Placed (s : St) : Pc → Prop
  | .enter => Fresh c part s
  | .checkFirst k | .urlopen k => Fresh c part s ∧ k = resumeFrom s.part
  | .restart =>
    s.depth = 0 ∧ s.part = part ∧ resumeFrom part ≠ 0 ∧ c.server (resumeFrom part) = .httpError 416
  | .checkResponse k r | .discard k r =>
    Fresh c part s ∧ k = resumeFrom s.part ∧ c.server k = .response r
  | .openPart k r =>
    (∃ k₀, c.answered part = some (k₀, r) ∧ k = (base part k₀ r).length) ∧
      (k ≠ 0 → r.isPartial = true ∧ s.part = part) ∧ (s.part = part ∨ s.part = none)
  | .checkLoop l | .read l | .checkWritten l | .progress l => ∃ k, Looping c part l s.part k
  | .checkRead l chunk => (∃ k, Looping c part l s.part k) ∧ l.response.body l.reads = .ok chunk
  | .write l chunk =>
    (∃ k, Looping c part l s.part k) ∧ l.response.body l.reads = .ok chunk ∧ chunk ≠ []
  | .close | .checkClosed => ∃ f, Assembled c part f ∧ s.part = some f
  | .checkHash done | .hash done => ∃ f, Assembled c part f ∧ s.part = some f ∧ done <+: f
  | .verify done => Assembled c part done ∧ s.part = some done
  | .promote digest | .replace digest =>
    ∃ f, Assembled c part f ∧ s.part = some f ∧ digest = sha256 f ∧ c.args.accepts digest = true
  | .ended (.ok digest) =>
    ∃ f, Assembled c part f ∧ s.dest = some f ∧ s.part = none ∧ digest = sha256 f ∧
      c.args.accepts digest = true
  | .ended (.error _) => LeftOver c part s.part

/-- Where the machine is, after a start with these files. -/
structure Traced (s : St) : Prop where
  placed : Placed sha256 c part s s.pc
  depth : s.depth ≤ 1
  dest : s.pc.isOk = false → s.dest = dest

end Trace

section

variable {sha256 : Bytes → String} {c : Call} {part dest : Option Bytes} {s : St}

theorem Fresh.leftOver (h : Fresh c part s) : LeftOver c part s.part := by
  rcases h with ⟨-, hpart⟩ | ⟨-, hpart, -⟩
  · exact .inr (.inl hpart)
  · exact .inl hpart

theorem Fresh.answered {r : Response} (h : Fresh c part s)
    (hr : c.server (resumeFrom s.part) = .response r) :
    c.answered part = some (resumeFrom s.part, r) := by
  rcases h with ⟨-, hpart⟩ | ⟨-, hpart, hne, hgone⟩
  · rw [hpart] at hr ⊢
    simp only [Call.answered, hr]
  · rw [hpart] at hr ⊢
    have hr : c.server 0 = .response r := hr
    simp only [Call.answered, hgone, hr]
    rw [if_pos ⟨hne, trivial⟩]
    rfl

theorem Looping.leftOver {l : Loop} {k : Nat} (h : Looping c part l s.part k) :
    LeftOver c part s.part :=
  .inr (.inr ⟨k, l.response, l.reads, _, h.answered, h.going, by rw [h.written, List.take_length]⟩)

theorem Assembled.leftOver {f : Bytes} (h : Assembled c part f) : LeftOver c part (some f) := by
  obtain ⟨k, r, body, hanswered, ⟨n, hgoing, -, rfl⟩, -, rfl⟩ := h
  exact .inr (.inr ⟨k, r, n, _, hanswered, hgoing, by rw [List.take_length]⟩)

theorem Placed.leftOver {pc : Pc} (h : Placed sha256 c part s pc) (hok : pc.isOk = false) :
    LeftOver c part s.part := by
  cases pc with
  | enter => exact Fresh.leftOver h
  | checkFirst | urlopen => exact h.1.leftOver
  | restart => exact .inr (.inl h.2.1)
  | checkResponse | discard => exact h.1.leftOver
  | openPart => exact h.2.2.symm.imp_right .inl
  | checkLoop | read | checkWritten | progress =>
    obtain ⟨k, hloop⟩ := h
    exact hloop.leftOver
  | checkRead | write =>
    obtain ⟨⟨k, hloop⟩, -⟩ := h
    exact hloop.leftOver
  | close | checkClosed =>
    obtain ⟨f, hf, hpart⟩ := h
    exact hpart ▸ hf.leftOver
  | checkHash | hash | promote | replace =>
    obtain ⟨f, hf, hpart, -⟩ := h
    exact hpart ▸ hf.leftOver
  | verify =>
    obtain ⟨hf, hpart⟩ := h
    exact hpart ▸ hf.leftOver
  | ended result =>
    cases result with
    | ok => cases hok
    | error => exact h

namespace Traced

theorem raise (h : Traced sha256 c part dest s) (hok : s.pc.isOk = false) (e : Exc) :
    Traced sha256 c part dest (s.raise e) where
  placed := h.placed.leftOver hok
  depth := h.depth
  dest _ := h.dest hok

theorem failed (h : Traced sha256 c part dest s) (hok : s.pc.isOk = false) (e : Exc)
    {left : Option Bytes} (hleft : LeftOver c part left) :
    Traced sha256 c part dest { s.raise e with part := left } where
  placed := hleft
  depth := h.depth
  dest _ := h.dest hok

theorem goto (h : Traced sha256 c part dest s) (hok : s.pc.isOk = false) {pc : Pc}
    (hplaced : Placed sha256 c part s pc) : Traced sha256 c part dest (s.goto pc) where
  placed := by
    cases pc with
    | ended result => cases result <;> exact hplaced
    | _ => exact hplaced
  depth := h.depth
  dest _ := h.dest hok

theorem check (h : Traced sha256 c part dest s) (hok : s.pc.isOk = false) {pc : Pc}
    (hplaced : Placed sha256 c part s pc) (cancel : Cancel) (isSet : Bool) :
    Traced sha256 c part dest (s.check cancel isSet pc) := by
  unfold St.check
  split
  · exact h.raise hok _
  · exact h.goto hok hplaced

theorem promoted (h : Traced sha256 c part dest s) {digest : String}
    (hplaced : Placed sha256 c part s (.replace digest)) :
    Traced sha256 c part dest (s.promoted digest) := by
  obtain ⟨f, hf, hpart, hdigest, haccepts⟩ := hplaced
  exact ⟨⟨f, hf, hpart, rfl, hdigest, haccepts⟩, h.depth, fun hok => by cases hok⟩

end Traced

theorem received_succ {r : Response} {n : Nat} {chunk : Bytes} (h : r.body n = .ok chunk) :
    r.received (n + 1) = r.received n ++ chunk := by
  simp only [Response.received, h, Except.toOption, Option.getD_some]

theorem Response.Going.succ {r : Response} {n : Nat} {chunk : Bytes} (h : r.Going n)
    (hchunk : r.body n = .ok chunk)
    (hne : chunk ≠ []) : r.Going (n + 1) := by
  intro i hi
  rcases Nat.lt_succ_iff_lt_or_eq.mp hi with hi | rfl
  · exact h i hi
  · exact ⟨chunk, hchunk, hne⟩

/-- Nothing has been received before the first read, and something after it. -/
theorem Response.Going.received_ne_nil {r : Response} {n : Nat} (h : r.Going n) (hn : n ≠ 0) :
    r.received n ≠ [] := by
  obtain ⟨m, rfl⟩ := Nat.exists_eq_succ_of_ne_zero hn
  obtain ⟨chunk, hchunk, hne⟩ := h m (Nat.lt_succ_self m)
  rw [received_succ hchunk]
  exact List.append_ne_nil_of_right_ne_nil _ hne

/-- The offset of the response that a call gets. -/
theorem answered_spec {k : Nat} {r : Response} (h : c.answered part = some (k, r)) :
    c.server k = .response r ∧ (k ≠ 0 → k = resumeFrom part) := by
  unfold Call.answered at h
  split at h
  · rename_i r' hr
    cases h
    exact ⟨hr, fun _ => rfl⟩
  · split at h
    · split at h
      · rename_i r' hr
        cases h
        exact ⟨hr, fun hk => absurd rfl hk⟩
      · cases h
    · cases h
  · cases h

theorem base_length {k : Nat} (hk : k ≠ 0 → k = resumeFrom part) (r : Response) :
    (base part k r).length = if r.isPartial then k else 0 := by
  unfold base
  by_cases hresumed : r.isPartial = true
  · by_cases hk0 : k = 0
    · simp [hk0]
    · rw [if_pos ⟨hk0, hresumed⟩, if_pos hresumed, hk hk0]
      cases part <;> rfl
  · rw [if_neg (fun h => hresumed h.2), if_neg hresumed]
    rfl

theorem Fresh.part_eq (h : Fresh c part s) (hk : resumeFrom s.part ≠ 0) : s.part = part := by
  rcases h with ⟨-, hpart⟩ | ⟨-, hpart, -⟩
  · exact hpart
  · rw [hpart] at hk
    exact absurd rfl hk

theorem Looping.written_succ {l : Loop} {now : Option Bytes} {k : Nat} {chunk : Bytes}
    (h : Looping c part l now k) (hchunk : l.response.body l.reads = .ok chunk) :
    now.getD [] ++ chunk = base part k l.response ++ l.response.received (l.reads + 1) := by
  rw [h.written, Option.getD_some, received_succ hchunk, List.append_assoc]

/-- As much of the chunk as has been written. -/
theorem Looping.leftOver_take {l : Loop} {now : Option Bytes} {k : Nat} {chunk : Bytes}
    (h : Looping c part l now k) (hchunk : l.response.body l.reads = .ok chunk)
      (hne : chunk ≠ []) (m : Nat) :
    LeftOver c part (some ((now.getD [] ++ chunk).take m)) :=
  .inr (.inr ⟨k, l.response, l.reads + 1, m, h.answered, h.going.succ hchunk hne, by
    rw [h.written_succ hchunk]⟩)

theorem Looping.succ {l : Loop} {now : Option Bytes} {k : Nat} {chunk : Bytes}
    (h : Looping c part l now k) (hchunk : l.response.body l.reads = .ok chunk) (hne : chunk ≠ [])
      (hlimit : ¬ (c.args.maxBytes ≠ 0 ∧ l.downloaded + chunk.length > c.args.maxBytes)) :
    Looping c part { l with reads := l.reads + 1, downloaded := l.downloaded + chunk.length }
      (some (now.getD [] ++ chunk)) k where
  answered := h.answered
  total := h.total
  going := h.going.succ hchunk hne
  written := congrArg some (h.written_succ hchunk)
  downloaded := by
    rw [received_succ hchunk, ← List.append_assoc, List.length_append, ← h.downloaded]
  limit hmax _ := Nat.le_of_not_lt fun hlt => hlimit ⟨hmax, hlt⟩

theorem Looping.assembled {l : Loop} {now : Option Bytes} {k : Nat} (h : Looping c part l now k)
    (hend : l.response.body l.reads = .ok []) : ∃ f, Assembled c part f ∧ now = some f := by
  refine ⟨_, ⟨k, l.response, _, h.answered, ⟨l.reads, h.going, hend, rfl⟩, ⟨⟨_, h.total⟩, ?_⟩, rfl⟩,
    h.written⟩
  intro hmax hne
  rw [← h.downloaded]
  refine h.limit hmax fun hzero => hne ?_
  rw [hzero]
  rfl

theorem placed_discard {k : Nat} {r : Response} (hfresh : Fresh c part s)
    (hk : k = resumeFrom s.part) (hr : c.server k = .response r) :
    c.answered part = some (k, r) ∧ (base part k r).length = (if r.isPartial then k else 0) ∧
      (k ≠ 0 → s.part = part) ∧ (s.part = part ∨ s.part = none) := by
  subst hk
  refine ⟨hfresh.answered hr, base_length (fun hk => ?_) r, hfresh.part_eq, ?_⟩
  · rw [hfresh.part_eq hk]
  · rcases hfresh with ⟨-, hpart⟩ | ⟨-, hpart, -⟩
    · exact .inl hpart
    · exact .inr hpart

theorem looping_opened {k k₀ : Nat} {r : Response} {total : Option Nat}
    (hanswered : c.answered part = some (k₀, r)) (hk : k = (base part k₀ r).length)
    (hpart : k ≠ 0 → r.isPartial = true ∧ s.part = part) (htotal : St.announced c k r = .ok total) :
    Looping c part ⟨r, total, 0, k⟩
      (if k ≠ 0 ∧ r.isPartial then some (s.part.getD []) else some []) k₀ where
  answered := hanswered
  total := hk ▸ htotal
  going i hi := absurd hi (Nat.not_lt_zero i)
  written := by
    show _ = some (base part k₀ r ++ [])
    rw [List.append_nil]
    by_cases hzero : k = 0
    · rw [if_neg (fun h => h.1 hzero), List.eq_nil_of_length_eq_zero (hk.symm.trans hzero)]
    · obtain ⟨hresumed, hsame⟩ := hpart hzero
      rw [if_pos ⟨hzero, hresumed⟩, hsame]
      have hbase : k₀ ≠ 0 ∧ r.isPartial = true := by
        refine ⟨fun h₀ => hzero ?_, hresumed⟩
        rw [hk, h₀]
        rfl
      rw [base, if_pos hbase]
  downloaded := by
    show k = (base part k₀ r ++ []).length
    rw [List.append_nil, hk]
  limit _ h := absurd rfl h

theorem hashed_prefix {f done : Bytes} {n : Nat} (hn : 0 < n) (h : done <+: f) :
    if ((f.drop done.length).take n).isEmpty then done = f
    else done ++ (f.drop done.length).take n <+: f := by
  obtain ⟨rest, rfl⟩ := h
  rw [List.drop_left]
  split
  · rename_i hempty
    rw [List.isEmpty_iff, List.take_eq_nil_iff] at hempty
    rcases hempty with hzero | hnil
    · omega
    · rw [hnil, List.append_nil]
  · exact (List.prefix_append_right_inj done).mpr (List.take_prefix n rest)

theorem go_traced {isSet : Bool} {s' : St} (h : Traced sha256 c part dest s)
    (hst : s.go sha256 c isSet = some s') : Traced sha256 c part dest s' := by
  have hplaced := h.placed
  cases hpc : s.pc with
  | enter =>
    rw [hpc] at hplaced
    simp only [St.go, hpc, Option.some.injEq] at hst
    exact hst ▸ h.goto (by rw [hpc]; rfl) ⟨hplaced, rfl⟩
  | checkFirst k =>
    rw [hpc] at hplaced
    simp only [St.go, hpc, Option.some.injEq] at hst
    subst hst
    refine h.check (by rw [hpc]; rfl) ?_ _ _
    exact hplaced
  | urlopen k =>
    rw [hpc] at hplaced
    have hok : s.pc.isOk = false := by rw [hpc]; rfl
    simp only [St.go, hpc, Option.some.injEq] at hst
    subst hst
    cases hreply : c.server k with
    | invalidUrl | networkError => exact h.raise hok _
    | response r => exact h.goto hok ⟨hplaced.1, hplaced.2, hreply⟩
    | httpError code =>
      simp only [St.opened]
      split
      · rename_i hgone
        obtain ⟨hne, rfl⟩ := hgone
        obtain ⟨hfresh, hk⟩ := hplaced
        subst hk
        refine h.goto hok ?_
        have hpart := hfresh.part_eq hne
        rcases hfresh with ⟨hdepth, -⟩ | ⟨-, hnone, -⟩
        · exact ⟨hdepth, hpart, hpart ▸ hne, hpart ▸ hreply⟩
        · rw [hnone] at hne
          exact absurd rfl hne
      · exact h.raise hok _
  | restart =>
    rw [hpc] at hplaced
    simp only [St.go, hpc, Option.some.injEq] at hst
    subst hst
    obtain ⟨hdepth, -, hne, hgone⟩ := hplaced
    have hdepth' : s.depth + 1 = 1 := by omega
    exact ⟨.inr ⟨hdepth', rfl, hne, hgone⟩, Nat.le_of_eq hdepth',
      fun _ => h.dest (by rw [hpc]; rfl)⟩
  | checkResponse k r =>
    rw [hpc] at hplaced
    simp only [St.go, hpc, Option.some.injEq] at hst
    subst hst
    refine h.check (by rw [hpc]; rfl) ?_ _ _
    exact hplaced
  | discard k r =>
    rw [hpc] at hplaced
    have hok : s.pc.isOk = false := by rw [hpc]; rfl
    obtain ⟨hanswered, hbase, hsame, hpart⟩ := placed_discard hplaced.1 hplaced.2.1 hplaced.2.2
    simp only [St.go, hpc] at hst
    split at hst
    · rename_i hdiscard
      cases hst
      refine ⟨⟨⟨k, hanswered, ?_⟩, fun h => absurd rfl h, .inr rfl⟩, h.depth, fun _ => h.dest hok⟩
      rw [hbase, hdiscard.2]
      rfl
    · rename_i hkeep
      cases hst
      have hresumed : k ≠ 0 → r.isPartial = true := by
        intro hk
        cases hp : r.isPartial with
        | true => rfl
        | false => exact absurd ⟨hk, hp⟩ hkeep
      refine h.goto hok ⟨⟨k, hanswered, ?_⟩, fun hk => ⟨hresumed hk, hsame hk⟩, hpart⟩
      rw [hbase]
      by_cases hk : k = 0
      · rw [hk, ite_self]
      · rw [if_pos (hresumed hk)]
  | openPart k r =>
    rw [hpc] at hplaced
    have hok : s.pc.isOk = false := by rw [hpc]; rfl
    obtain ⟨⟨k₀, hanswered, hk⟩, hpart, -⟩ := hplaced
    simp only [St.go, hpc] at hst
    split at hst
    · rename_i total htotal
      cases hst
      exact ⟨⟨k₀, looping_opened hanswered hk hpart htotal⟩, h.depth, fun _ => h.dest hok⟩
    · cases hst
      exact h.raise hok _
  | checkLoop l =>
    rw [hpc] at hplaced
    simp only [St.go, hpc, Option.some.injEq] at hst
    subst hst
    refine h.check (by rw [hpc]; rfl) ?_ _ _
    exact hplaced
  | read l =>
    rw [hpc] at hplaced
    have hok : s.pc.isOk = false := by rw [hpc]; rfl
    simp only [St.go, hpc] at hst
    split at hst
    · rename_i chunk hchunk
      cases hst
      exact h.goto hok ⟨hplaced, hchunk⟩
    · cases hst
      exact h.raise hok _
  | checkRead l chunk =>
    rw [hpc] at hplaced
    obtain ⟨⟨k, hloop⟩, hchunk⟩ := hplaced
    simp only [St.go, hpc, Option.some.injEq] at hst
    subst hst
    refine h.check (by rw [hpc]; rfl) ?_ _ _
    cases chunk with
    | nil => exact hloop.assembled hchunk
    | cons b bs => exact ⟨⟨k, hloop⟩, hchunk, List.cons_ne_nil b bs⟩
  | write l chunk =>
    rw [hpc] at hplaced
    have hok : s.pc.isOk = false := by rw [hpc]; rfl
    obtain ⟨⟨k, hloop⟩, hchunk, hne⟩ := hplaced
    simp only [St.go, hpc, Option.some.injEq] at hst
    subst hst
    simp only [St.written]
    split
    · have hleft := hloop.leftOver_take hchunk hne (s.part.getD [] ++ chunk).length
      rw [List.take_length] at hleft
      exact h.failed hok _ hleft
    · rename_i hlimit
      exact ⟨⟨k, hloop.succ hchunk hne hlimit⟩, h.depth, fun _ => h.dest hok⟩
  | checkWritten l =>
    rw [hpc] at hplaced
    simp only [St.go, hpc, Option.some.injEq] at hst
    subst hst
    refine h.check (by rw [hpc]; rfl) ?_ _ _
    exact hplaced
  | progress l =>
    rw [hpc] at hplaced
    simp only [St.go, hpc, Option.some.injEq] at hst
    exact hst ▸ h.goto (by rw [hpc]; rfl) hplaced
  | close =>
    rw [hpc] at hplaced
    simp only [St.go, hpc, Option.some.injEq] at hst
    exact hst ▸ h.goto (by rw [hpc]; rfl) hplaced
  | checkClosed =>
    rw [hpc] at hplaced
    obtain ⟨f, hf, hpart⟩ := hplaced
    simp only [St.go, hpc, Option.some.injEq] at hst
    subst hst
    refine h.check (by rw [hpc]; rfl) ?_ _ _
    exact ⟨f, hf, hpart, List.nil_prefix⟩
  | checkHash done =>
    rw [hpc] at hplaced
    simp only [St.go, hpc, Option.some.injEq] at hst
    subst hst
    refine h.check (by rw [hpc]; rfl) ?_ _ _
    exact hplaced
  | hash done =>
    rw [hpc] at hplaced
    have hok : s.pc.isOk = false := by rw [hpc]; rfl
    obtain ⟨f, hf, hpart, hdone⟩ := hplaced
    simp only [St.go, hpc, Option.some.injEq] at hst
    subst hst
    have hchunk := hashed_prefix c.args.chunkBytes_pos hdone
    simp only [St.hashed, hpart, Option.getD_some]
    split at hchunk
    · rename_i hempty
      rw [if_pos hempty]
      exact h.goto hok ⟨hchunk ▸ hf, hchunk ▸ hpart⟩
    · rename_i hmore
      rw [if_neg hmore]
      exact h.goto hok ⟨f, hf, hpart, hchunk⟩
  | verify done =>
    rw [hpc] at hplaced
    have hok : s.pc.isOk = false := by rw [hpc]; rfl
    obtain ⟨hf, hpart⟩ := hplaced
    simp only [St.go, hpc, Option.some.injEq] at hst
    subst hst
    simp only [St.verified]
    split
    · rename_i haccepts
      exact h.goto hok ⟨done, hf, hpart, rfl, haccepts⟩
    · exact h.raise hok _
  | promote digest =>
    rw [hpc] at hplaced
    have hok : s.pc.isOk = false := by rw [hpc]; rfl
    simp only [St.go, hpc, Option.some.injEq] at hst
    subst hst
    simp only [St.promote]
    split
    · split
      · exact h.raise hok _
      · exact h.promoted hplaced
    · refine h.check hok ?_ _ _
      exact hplaced
  | replace digest =>
    rw [hpc] at hplaced
    simp only [St.go, hpc, Option.some.injEq] at hst
    exact hst ▸ h.promoted hplaced
  | ended result =>
    simp only [St.go, hpc] at hst
    cases hst

theorem fail_traced {typeName : String} {kept : Nat} {s' : St} (h : Traced sha256 c part dest s)
    (hst : s.fail c typeName kept = some s') : Traced sha256 c part dest s' := by
  have hplaced := h.placed
  cases hpc : s.pc with
  | enter | restart | progress | hash | replace =>
    simp only [St.fail, hpc, Option.some.injEq] at hst
    exact hst ▸ h.raise (by rw [hpc]; rfl) _
  | discard k r =>
    simp only [St.fail, hpc] at hst
    split at hst
    · cases hst
      exact h.raise (by rw [hpc]; rfl) _
    · cases hst
  | openPart k r =>
    simp only [St.fail, hpc] at hst
    split at hst
    · cases hst
      exact h.raise (by rw [hpc]; rfl) _
    · cases hst
  | promote digest =>
    simp only [St.fail, hpc] at hst
    split at hst
    · cases hst
      exact h.raise (by rw [hpc]; rfl) _
    · cases hst
  | write l chunk =>
    rw [hpc] at hplaced
    obtain ⟨⟨k, hloop⟩, hchunk, hne⟩ := hplaced
    simp only [St.fail, hpc, Option.some.injEq] at hst
    subst hst
    exact h.failed (by rw [hpc]; rfl) _ (hloop.leftOver_take hchunk hne kept)
  | close =>
    rw [hpc] at hplaced
    obtain ⟨f, ⟨k, r, body, hanswered, ⟨n, hgoing, -, rfl⟩, -, rfl⟩, hpart⟩ := hplaced
    simp only [St.fail, hpc, Option.some.injEq] at hst
    subst hst
    refine h.failed (by rw [hpc]; rfl) _ (.inr (.inr ⟨k, r, n, kept, hanswered, hgoing, ?_⟩))
    rw [hpart]
    rfl
  | checkFirst | urlopen | checkResponse | checkLoop | read | checkRead | checkWritten | checkClosed
  | checkHash | verify | ended =>
    simp only [St.fail, hpc] at hst
    cases hst

theorem step_traced {choice : Choice} {s' : St} (h : Traced sha256 c part dest s)
    (hst : step sha256 c s choice = some s') : Traced sha256 c part dest s' := by
  cases choice with
  | go isSet => exact go_traced h hst
  | fail typeName kept => exact fail_traced h hst

theorem start_traced : Traced sha256 c part dest (.start part dest) :=
  ⟨.inl ⟨rfl, rfl⟩, Nat.zero_le 1, fun _ => rfl⟩

theorem run_traced {choices : List Choice} {t : St}
    (h : Run (step sha256 c) (.start part dest) choices t) : Traced sha256 c part dest t :=
  h.invariant (fun _ _ _ => step_traced) start_traced

end

end Downloader

end InferenceEngine
