import InferenceEngine.Models.Promotion

/-!
# Models.Resume

One destination and any number of attempts at it, each with its own arguments and its own server
behaviour, each ended by whatever may end it. When all the responses are parts of one file, nothing
else is ever put together.

* `step_rank`: every step of a call brings it nearer to its end.
* `attempts_keep`: the partial file and the file that is renamed into place are prefixes of the file
  that is served, and every call comes to its end.
-/

namespace InferenceEngine

namespace Downloader

open Lts

/-- The server has this one file: a partial response begins at the offset that was asked for, any
other one at the beginning, and each may break off. -/
def Call.Serves (c : Call) (file : Bytes) : Prop :=
  ∀ k r, c.server k = .response r →
    ∀ n, r.Going n → r.received n <+: file.drop (if r.isPartial then k else 0)

section Prefix

variable {c : Call} {file : Bytes} {part : Option Bytes}

/-- A partial file that can be gone on with. -/
def PartOf (part : Option Bytes) (file : Bytes) : Prop := ∀ p, part = some p → p <+: file

theorem append_prefix {p rest : Bytes} {k : Nat} (hp : p <+: file) (hk : p.length = k)
    (hrest : rest <+: file.drop k) : p ++ rest <+: file := by
  obtain ⟨tail, rfl⟩ := hp
  rw [← hk, List.drop_left] at hrest
  exact (List.prefix_append_right_inj p).mpr hrest

theorem received_isPrefix {k n : Nat} {r : Response} (hserves : c.Serves file)
    (hpart : PartOf part file) (hanswered : c.answered part = some (k, r)) (hgoing : r.Going n) :
    base part k r ++ r.received n <+: file := by
  have hrest := hserves k r (answered_spec hanswered).1 n hgoing
  refine append_prefix ?_ (base_length (answered_spec hanswered).2 r) hrest
  unfold base
  split
  · cases hp : part with
    | none => exact List.nil_prefix
    | some p => exact hpart p hp
  · exact List.nil_prefix

theorem LeftOver.partOf {left : Option Bytes} (h : LeftOver c part left) (hserves : c.Serves file)
    (hpart : PartOf part file) : PartOf left file := by
  intro p hp
  rcases h with hnone | hsame | ⟨k, r, n, m, hanswered, hgoing, hleft⟩
  · rw [hnone] at hp
    cases hp
  · exact hpart p (hsame ▸ hp)
  · rw [hleft] at hp
    cases hp
    exact (List.take_prefix m _).trans (received_isPrefix hserves hpart hanswered hgoing)

theorem Assembled.isPrefix {f : Bytes} (h : Assembled c part f) (hserves : c.Serves file)
    (hpart : PartOf part file) : f <+: file := by
  obtain ⟨k, r, body, hanswered, ⟨n, hgoing, -, rfl⟩, -, rfl⟩ := h
  exact received_isPrefix hserves hpart hanswered hgoing

/-- Every read that returns something returns a byte of the file. -/
theorem Response.Going.le_length {r : Response} {n : Nat} (h : r.Going n) :
    n ≤ (r.received n).length := by
  induction n with
  | zero => exact Nat.zero_le _
  | succ n ih =>
    obtain ⟨chunk, hchunk, hne⟩ := h n (Nat.lt_succ_self n)
    have hlen := List.length_pos_iff.mpr hne
    have := ih fun i hi => h i (Nat.lt_succ_of_lt hi)
    rw [received_succ hchunk, List.length_append]
    omega

theorem reads_le {k n : Nat} {r : Response} (hserves : c.Serves file)
    (hanswered : c.answered part = some (k, r)) (hgoing : r.Going n) : n ≤ file.length := by
  have hle := (hserves k r (answered_spec hanswered).1 n hgoing).length_le
  have := hgoing.le_length
  rw [List.length_drop] at hle
  omega

end Prefix
/-! ## Every call comes to its end -/

/-- The steps that are left at most, when the file has `size` bytes. -/
def rank (size : Nat) (s : St) : Nat :=
  match s.pc with
  | .enter => 8 * size + 17 + if resumeFrom s.part = 0 then 0 else 4
  | .checkFirst k => 8 * size + 16 + if k = 0 then 0 else 4
  | .urlopen k => 8 * size + 15 + if k = 0 then 0 else 4
  -- only after a request that was not for the whole file
  | .restart => 8 * size + 18
  | .checkResponse _ _ => 8 * size + 14
  | .discard _ _ => 8 * size + 13
  | .openPart _ _ => 8 * size + 12
  | .checkLoop l => 2 * size + 6 * (size - l.reads) + 11
  | .read l => 2 * size + 6 * (size - l.reads) + 10
  | .checkRead l _ => 2 * size + 6 * (size - l.reads) + 9
  | .write l _ => 2 * size + 6 * (size - l.reads) + 8
  | .checkWritten l => 2 * size + 6 * (size - l.reads) + 13
  | .progress l => 2 * size + 6 * (size - l.reads) + 12
  | .close => 2 * size + 7
  | .checkClosed => 2 * size + 6
  | .checkHash done => 2 * (size - done.length) + 5
  | .hash done => 2 * (size - done.length) + 4
  | .verify _ => 3
  | .promote _ => 2
  | .replace _ => 1
  | .ended _ => 0

section Rank

variable {sha256 : Bytes → String} {c : Call} {file : Bytes} {part dest : Option Bytes} {s s' : St}

theorem rank_ended {size : Nat} (h : s.pc.isEnded = true) : rank size s = 0 := by
  cases hpc : s.pc with
  | ended => simp only [rank, hpc]
  | _ => rw [hpc] at h; cases h

theorem rank_pos {size : Nat} (h : s.pc.isEnded = false) : 0 < rank size s := by
  cases hpc : s.pc with
  | ended => rw [hpc] at h; cases h
  | _ => simp only [rank, hpc]; omega

theorem rank_check {size : Nat} (cancel : Cancel) (isSet : Bool) (pc : Pc) :
    rank size (s.check cancel isSet pc) ≤ rank size (s.goto pc) := by
  unfold St.check
  split
  · exact Nat.zero_le _
  · exact Nat.le_refl _

theorem go_rank {isSet : Bool} (htraced : Traced sha256 c part dest s) (hserves : c.Serves file)
    (hpart : PartOf part file) (hst : s.go sha256 c isSet = some s') :
    rank file.length s' < rank file.length s := by
  have hplaced := htraced.placed
  have hraise (hopen : s.pc.isEnded = false) (e : Exc) : rank file.length
      (s.raise e) < rank file.length s :=
    rank_pos hopen
  cases hpc : s.pc with
  | enter =>
    simp only [St.go, hpc, Option.some.injEq] at hst
    subst hst
    simp only [rank, hpc, St.goto]
    omega
  | urlopen k =>
    simp only [St.go, hpc, Option.some.injEq] at hst
    subst hst
    cases c.server k with
    | invalidUrl | networkError => exact hraise (by rw [hpc]; rfl) _
    | response r =>
      simp only [St.opened, rank, hpc, St.goto]
      omega
    | httpError code =>
      simp only [St.opened]
      split
      · rename_i hgone
        simp only [rank, hpc, St.goto, if_neg hgone.1]
        omega
      · exact hraise (by rw [hpc]; rfl) _
  | restart =>
    simp only [St.go, hpc, Option.some.injEq] at hst
    subst hst
    simp only [rank, hpc, resumeFrom, Option.elim_none, if_true]
    omega
  | discard k r =>
    simp only [St.go, hpc] at hst
    split at hst <;> cases hst <;> simp only [rank, hpc, St.goto] <;> omega
  | openPart k r =>
    simp only [St.go, hpc] at hst
    split at hst
    · cases hst
      simp only [rank, hpc, St.partOpened]
      omega
    · cases hst
      exact hraise (by rw [hpc]; rfl) _
  | read l =>
    simp only [St.go, hpc] at hst
    split at hst
    · cases hst
      simp only [rank, hpc, St.goto]
      omega
    · cases hst
      exact hraise (by rw [hpc]; rfl) _
  | checkRead l chunk =>
    simp only [St.go, hpc, Option.some.injEq] at hst
    subst hst
    refine Nat.lt_of_le_of_lt (rank_check _ _ _) ?_
    split <;> simp only [rank, hpc, St.goto] <;> omega
  | write l chunk =>
    rw [hpc] at hplaced
    obtain ⟨⟨k, hloop⟩, hchunk, hne⟩ := hplaced
    -- the byte that was read is one of the file
    have hle : l.reads + 1 ≤ file.length :=
      reads_le hserves hloop.answered (hloop.going.succ hchunk hne)
    simp only [St.go, hpc, Option.some.injEq] at hst
    subst hst
    simp only [St.written]
    split
    · exact rank_pos (by rw [hpc]; rfl)
    · simp only [rank, hpc, St.goto]
      omega
  | checkFirst | checkResponse | checkLoop | checkWritten | checkClosed | checkHash =>
    simp only [St.go, hpc, Option.some.injEq] at hst
    subst hst
    refine Nat.lt_of_le_of_lt (rank_check _ _ _) ?_
    simp only [rank, hpc, St.goto, List.length_nil]
    omega
  | progress | close =>
    simp only [St.go, hpc, Option.some.injEq] at hst
    subst hst
    simp only [rank, hpc, St.goto]
    omega
  | hash done =>
    rw [hpc] at hplaced
    obtain ⟨f, hf, hnow, hdone⟩ := hplaced
    simp only [St.go, hpc, Option.some.injEq] at hst
    subst hst
    simp only [St.hashed, hnow, Option.getD_some]
    split
    · simp only [rank, hpc, St.goto]
      omega
    · rename_i hmore
      have hlen := (hf.isPrefix hserves hpart).length_le
      have hchunk := hashed_prefix c.args.chunkBytes_pos hdone
      rw [if_neg hmore] at hchunk
      have hle := hchunk.length_le
      rw [List.isEmpty_iff] at hmore
      have hpos := List.length_pos_iff.mpr hmore
      rw [List.length_append] at hle
      simp only [rank, hpc, St.goto, List.length_append]
      omega
  | verify done =>
    simp only [St.go, hpc, Option.some.injEq] at hst
    subst hst
    simp only [St.verified]
    split
    · simp only [rank, hpc, St.goto]
      omega
    · exact hraise (by rw [hpc]; rfl) _
  | promote digest =>
    simp only [St.go, hpc, Option.some.injEq] at hst
    subst hst
    simp only [St.promote]
    split
    · split
      · exact hraise (by rw [hpc]; rfl) _
      · exact rank_pos (by rw [hpc]; rfl)
    · refine Nat.lt_of_le_of_lt (rank_check _ _ _) ?_
      simp only [rank, hpc, St.goto]
      omega
  | replace digest =>
    simp only [St.go, hpc, Option.some.injEq] at hst
    subst hst
    exact rank_pos (by rw [hpc]; rfl)
  | ended result =>
    simp only [St.go, hpc] at hst
    cases hst

theorem step_rank {choice : Choice} (htraced : Traced sha256 c part dest s)
    (hserves : c.Serves file) (hpart : PartOf part file) (hst : step sha256 c s choice = some s') :
    rank file.length s' < rank file.length s := by
  cases choice with
  | go isSet => exact go_rank htraced hserves hpart hst
  | fail typeName kept =>
    obtain ⟨hopen, ⟨e, hended⟩, -⟩ := fail_spec hst
    rw [rank_ended (by rw [hended]; rfl)]
    exact rank_pos hopen

theorem go_enabled (h : s.pc.isEnded = false) (isSet : Bool) :
    (step sha256 c s (.go isSet)).isSome = true := by
  cases hpc : s.pc with
  | ended => rw [hpc] at h; cases h
  | discard | openPart | read =>
    simp only [step, St.go, hpc]
    split <;> rfl
  | _ => simp only [step, St.go, hpc, Option.isSome_some]

theorem run_length_le {choices : List Choice} {t : St} (hserves : c.Serves file)
    (hpart : PartOf part file) (hrun : Run (step sha256 c) (.start part dest) choices t) :
    choices.length ≤ 8 * file.length + 21 := by
  have hlen := Run.length_add_le (I := Traced sha256 c part dest) (rank file.length) (fun _ => 0)
    (fun _ _ _ => step_traced)
      (fun _ _ _ htraced => step_rank htraced hserves hpart) hrun start_traced
  have hstart : rank file.length (.start part dest) ≤ 8 * file.length + 21 := by
    by_cases hzero : resumeFrom part = 0
      <;> simp only [rank, St.start, hzero, if_true, if_false] <;> omega
  have hsum : (choices.map fun _ => 0).sum = 0 := by simp
  omega

end Rank


/-! ## Attempts -/

/-- The destination, and the attempt that is under way or has ended last. -/
structure Site where
  call : Call
  st : St

inductive Move where
  | attempt (c : Call)
  | step (choice : Choice)

namespace Site

def begin (s : Site) (c : Call) : Option Site :=
  if s.st.pc.isEnded then some ⟨c, .start s.st.part s.st.dest⟩ else none

def move (sha256 : Bytes → String) (s : Site) : Move → Option Site
  | .attempt c => s.begin c
  | .step choice => (step sha256 s.call s.st choice).map fun st => ⟨s.call, st⟩

/-- Where the first call begins. -/
def init (c : Call) (part dest : Option Bytes) : Site := ⟨c, .start part dest⟩

end Site

section Attempts

variable {sha256 : Bytes → String} {file : Bytes}

/-- The attempt has begun with a part of the file, and what was promoted before is one. -/
structure Sound (sha256 : Bytes → String) (file : Bytes) (dest : Option Bytes) (s : Site) :
    Prop where
  serves : s.call.Serves file
  began : ∃ part dest', PartOf part file ∧ (dest' = dest ∨ PartOf dest' file) ∧
    Traced sha256 s.call part dest' s.st

/-- A call has returned: it has left no partial file, and its file is a part of the one that is
served. -/
theorem Sound.promoted {dest : Option Bytes} {s : Site} (h : Sound sha256 file dest s)
    (hok : s.st.pc.isOk = true) : s.st.part = none ∧ ∃ f, s.st.dest = some f ∧ f <+: file := by
  obtain ⟨part, dest', hpart, -, htraced⟩ := h.began
  have hplaced := htraced.placed
  cases hpc : s.st.pc with
  | ended result =>
    rw [hpc] at hok hplaced
    cases result with
    | ok digest =>
      obtain ⟨f, hf, hdest, hnone, -⟩ := hplaced
      exact ⟨hnone, f, hdest, hf.isPrefix h.serves hpart⟩
    | error => cases hok
  | _ => rw [hpc] at hok; cases hok

theorem Sound.partOf {dest : Option Bytes} {s : Site} (h : Sound sha256 file dest s) :
    PartOf s.st.part file := by
  obtain ⟨part, dest', hpart, -, htraced⟩ := h.began
  cases hok : s.st.pc.isOk with
  | false => exact (htraced.placed.leftOver hok).partOf h.serves hpart
  | true =>
    intro p hp
    rw [(h.promoted hok).1] at hp
    cases hp

theorem Sound.dest {dest : Option Bytes} {s : Site} (h : Sound sha256 file dest s) :
    s.st.dest = dest ∨ PartOf s.st.dest file := by
  obtain ⟨part, dest', hpart, hdest, htraced⟩ := h.began
  cases hok : s.st.pc.isOk with
  | false =>
    rw [htraced.dest hok]
    exact hdest
  | true =>
    obtain ⟨-, f, hf, hpart'⟩ := h.promoted hok
    refine .inr fun p hp => ?_
    rw [hf] at hp
    cases hp
    exact hpart'

theorem move_sound {dest : Option Bytes} {s s' : Site} {m : Move} (h : Sound sha256 file dest s)
    (hm : ∀ c, m = .attempt c → c.Serves file) (hst : s.move sha256 m = some s') :
    Sound sha256 file dest s' := by
  cases m with
  | attempt c =>
    simp only [Site.move, Site.begin] at hst
    split at hst
    · cases hst
      exact ⟨hm c rfl, _, _, h.partOf, h.dest, start_traced⟩
    · cases hst
  | step choice =>
    obtain ⟨st, hstep, rfl⟩ := Option.map_eq_some_iff.mp hst
    obtain ⟨part, dest', hpart, hdest, htraced⟩ := h.began
    exact ⟨h.serves, part, dest', hpart, hdest, step_traced htraced hstep⟩

theorem moves_sound {dest : Option Bytes} {s t : Site} {ms : List Move}
    (h : Run (Site.move sha256) s ms t) (hms : ∀ c, .attempt c ∈ ms → c.Serves file)
      (hs : Sound sha256 file dest s) :
    Sound sha256 file dest t := by
  induction h with
  | refl => exact hs
  | @cons s s' t m ms hst _ ih =>
    refine ih (fun c hc => hms c (List.mem_cons_of_mem m hc)) (move_sound hs ?_ hst)
    rintro c rfl
    exact hms c (List.mem_cons_self ..)

/-- After any attempts at a file, each of which may fail anywhere and may be cancelled at any look
at the event: the partial file and what was renamed into place are prefixes of the file that is
served, a call has begun again at most once, and a call comes to its end from here. -/
theorem attempts_keep (sha256 : Bytes → String) (file : Bytes) (c : Call) (part dest : Option Bytes)
    (ms : List Move) (t : Site) (hrun : Run (Site.move sha256) (.init c part dest) ms t)
    (hserves : c.Serves file) (hms : ∀ c', .attempt c' ∈ ms → c'.Serves file)
      (hpart : PartOf part file) :
    PartOf t.st.part file ∧ (t.st.dest = dest ∨ PartOf t.st.dest file) ∧
      (t.st.pc.isOk = true → ∃ f, t.st.dest = some f ∧ f <+: file) ∧ t.st.depth ≤ 1 ∧
      (t.st.pc.isEnded = false → ∀ isSet, (step sha256 t.call t.st (.go isSet)).isSome = true) ∧
      ∀ c' choices u, c'.Serves file → Run (step sha256 c') (.start t.st.part t.st.dest) choices u →
        choices.length ≤ 8 * file.length + 21 := by
  have hsound : Sound sha256 file dest t :=
    moves_sound hrun hms ⟨hserves, part, dest, hpart, .inl rfl, start_traced⟩
  refine ⟨hsound.partOf, hsound.dest, fun hok => (hsound.promoted hok).2, ?_,
    fun hopen isSet => go_enabled hopen isSet, ?_⟩
  · obtain ⟨_, _, _, _, htraced⟩ := hsound.began
    exact htraced.depth
  · intro c' choices u hserves' hrun'
    exact run_length_le hserves' hsound.partOf hrun'

/-- The four bytes of `test`, from any offset, in one read. -/
def testFile : Call where
  args := testArgs
  server k := .response ⟨206, none,
    fun n => if n = 0 then .ok ([116, 101, 115, 116].drop k) else .ok []⟩

theorem testFile_serves : testFile.Serves [116, 101, 115, 116] := by
  intro k r hr n hgoing
  cases hr
  cases n with
  | zero => exact List.nil_prefix
  | succ n =>
    cases n with
    | zero => exact List.prefix_rfl
    | succ n =>
      obtain ⟨chunk, hchunk, hne⟩ := hgoing 1 (by omega)
      cases hchunk
      exact absurd rfl hne

/-- The first attempt writes two bytes and fails, the second one writes the others. -/
def brokenOff : List Move :=
  List.replicate 9 (.step (.go false)) ++ [.step (.fail "OSError" 2), .attempt testFile] ++
    List.replicate 23 (.step (.go false))

theorem attempts_keep_brokenOff :
    ∃ t, Run (Site.move testSha256) (.init testFile none none) brokenOff t ∧
      t.st.dest = some [116, 101, 115, 116] ∧ PartOf t.st.part [116, 101, 115, 116] ∧
      t.st.depth ≤ 1 := by
  obtain ⟨t, hrun, hdest⟩ : ∃ t, Run (Site.move testSha256) (.init testFile none none) brokenOff t ∧
      t.st.dest = some [116, 101, 115, 116] := run_of_exec_map rfl
  have hserves : ∀ c', .attempt c' ∈ brokenOff → c'.Serves [116, 101, 115, 116] := by
    intro c' hc'
    have hmem : Move.attempt c' = .attempt testFile := by simpa [brokenOff] using hc'
    cases hmem
    exact testFile_serves
  obtain ⟨hpart, -, -, hdepth, -⟩ :=
    attempts_keep testSha256 [116, 101, 115, 116] testFile none none
    brokenOff t hrun testFile_serves hserves (fun p hp => by cases hp)
  exact ⟨t, hrun, hdest, hpart, hdepth⟩

end Attempts

end Downloader

end InferenceEngine
