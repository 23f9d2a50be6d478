import InferenceEngine.Models.Downloader

/-!
# Models.Promotion

What `download` renames into place. The end of a response is an empty read, and `http.client`
returns one when the announced length is reached and when the peer has closed the connection before;
the length is not looked at again.

* `leads_promoted`: a response that is read to its end, and whose file passes the checks, is renamed
  into place when nothing interrupts the call.
* `promoted_complete_iff`: what is renamed into place is complete exactly when the server does not
  cut the response short.
-/

namespace InferenceEngine

namespace Downloader

open Lts

/-! ## A call that nothing interrupts -/

section Reach

variable (sha256 : Bytes → String) (c : Call)

/-- Nothing fails and the event is not set. -/
def Leads (s t : St) : Prop := ∃ n, Run (step sha256 c) s (List.replicate n (.go false)) t

variable {sha256 c} {part dest : Option Bytes} {s : St}

theorem Leads.refl : Leads sha256 c s s := ⟨0, .refl⟩

theorem Leads.trans {t u : St} (h₁ : Leads sha256 c s t) (h₂ : Leads sha256 c t u) :
    Leads sha256 c s u := by
  obtain ⟨n, h₁⟩ := h₁
  obtain ⟨m, h₂⟩ := h₂
  exact ⟨n + m, by rw [List.replicate_add]; exact h₁.trans h₂⟩

theorem Leads.cons {t u : St} (h : s.go sha256 c false = some t) (htail : Leads sha256 c t u) :
    Leads sha256 c s u := by
  obtain ⟨n, hrun⟩ := htail
  exact ⟨n + 1, .cons h hrun⟩

theorem check_false (s : St) (cancel : Cancel) (pc : Pc) : s.check cancel false pc = s.goto pc :=
  if_neg fun h => Bool.false_ne_true h.2

theorem Leads.check {t u : St} {pc : Pc}
    (h : s.go sha256 c false = some (t.check c.args.cancel false pc))
      (htail : Leads sha256 c (t.goto pc) u) : Leads sha256 c s u :=
  .cons (h.trans (congrArg some (check_false t _ pc))) htail

theorem leads_urlopen {p : Option Bytes} {d : Nat} :
    Leads sha256 c ⟨p, dest, d, .enter⟩ ⟨p, dest, d, .urlopen (resumeFrom p)⟩ :=
  .cons rfl (.check rfl .refl)

theorem leads_request {p : Option Bytes} {d : Nat} {r : Response}
    (hr : c.server (resumeFrom p) = .response r) :
    Leads sha256 c ⟨p, dest, d, .enter⟩ ⟨p, dest, d, .discard (resumeFrom p) r⟩ := by
  have hopened : St.go sha256 c ⟨p, dest, d, .urlopen (resumeFrom p)⟩ false =
      some ⟨p, dest, d, .checkResponse (resumeFrom p) r⟩ := by
    show some (St.opened _ _ (c.server (resumeFrom p))) = some _
    rw [hr]
    rfl
  exact leads_urlopen.trans (.cons hopened (.check rfl .refl))

theorem leads_answered {k : Nat} {r : Response} (h : c.answered part = some (k, r)) :
    ∃ p d, Leads sha256 c (.start part dest) ⟨p, dest, d, .discard k r⟩ ∧ (k ≠ 0 → p = part) := by
  unfold Call.answered at h
  cases hreply : c.server (resumeFrom part) with
  | response r' =>
    rw [hreply] at h
    cases h
    exact ⟨part, 0, leads_request hreply, fun _ => rfl⟩
  | httpError code =>
    rw [hreply] at h
    simp only at h
    split at h
    · rename_i hgone
      split at h
      · rename_i r' hr'
        cases h
        have hrestart : St.go sha256 c ⟨part, dest, 0, .urlopen (resumeFrom part)⟩ false =
            some ⟨part, dest, 0, .restart⟩ := by
          show some (St.opened _ _ (c.server (resumeFrom part))) = some _
          rw [hreply]
          exact congrArg some (if_pos hgone)
        refine ⟨none, 1, ?_, fun h => absurd rfl h⟩
        exact leads_urlopen.trans (.cons hrestart (.cons rfl (leads_request (p := none) hr')))
      · cases h
    · cases h
  | invalidUrl | networkError =>
    rw [hreply] at h
    cases h

theorem leads_loop {k : Nat} {r : Response} {total : Option Nat}
    (hanswered : c.answered part = some (k, r))
      (htotal : St.announced c (base part k r).length r = .ok total) :
    ∃ d, Leads sha256 c (.start part dest)
      ⟨some (base part k r), dest, d, .checkLoop ⟨r, total, 0, (base part k r).length⟩⟩ := by
  obtain ⟨p, d, hdiscard, hpart⟩ : ∃ p d,
      Leads sha256 c (.start part dest) ⟨p, dest, d, .discard k r⟩ ∧
    (k ≠ 0 → p = part) := leads_answered hanswered
  have hbase := base_length (answered_spec hanswered).2 r
  refine ⟨d, hdiscard.trans ?_⟩
  by_cases hgone : k ≠ 0 ∧ r.isPartial = false
  · have hnil : base part k r = [] := by
      rw [hgone.2] at hbase
      exact List.eq_nil_of_length_eq_zero hbase
    rw [hnil] at htotal ⊢
    have hdiscarded : St.go sha256 c ⟨p, dest, d, .discard k r⟩ false = some ⟨none, dest, d,
        .openPart 0 r⟩ :=
      if_pos hgone
    refine .cons hdiscarded (.cons ?_ .refl)
    simp only [St.go, List.length_nil] at htotal ⊢
    rw [htotal]
    rfl
  · have hkept : St.go sha256 c ⟨p, dest, d, .discard k r⟩ false = some ⟨p, dest, d,
        .openPart k r⟩ :=
      if_neg hgone
    have hk : (base part k r).length = k := by
      rw [hbase]
      by_cases hzero : k = 0
      · rw [hzero, ite_self]
      · cases hresumed : r.isPartial with
        | true => rfl
        | false => exact absurd ⟨hzero, hresumed⟩ hgone
    rw [hk] at htotal ⊢
    refine .cons hkept (.cons ?_ .refl)
    simp only [St.go, htotal, St.partOpened]
    by_cases hzero : k = 0
    · rw [if_neg (fun h => h.1 hzero), List.eq_nil_of_length_eq_zero (hk.trans hzero)]
    · have hresumed : r.isPartial = true := by
        cases hresumed : r.isPartial with
        | true => rfl
        | false => exact absurd ⟨hzero, hresumed⟩ hgone
      rw [if_pos ⟨hzero, hresumed⟩, base, if_pos ⟨hzero, hresumed⟩, hpart hzero]

theorem received_length_le {r : Response} {n : Nat} :
    (r.received n).length ≤ (r.received (n + 1)).length := by
  rw [Response.received, List.length_append]
  omega

theorem leads_reads {f : Bytes} {d : Nat} {r : Response} {total : Option Nat} {n : Nat}
    (hgoing : r.Going n) (hlimit : c.args.maxBytes ≠ 0 → n ≠
      0 → (f ++ r.received n).length ≤ c.args.maxBytes) :
    Leads sha256 c ⟨some f, dest, d, .checkLoop ⟨r, total, 0, f.length⟩⟩
      ⟨some (f ++ r.received n), dest, d,
      .checkLoop ⟨r, total, n, (f ++ r.received n).length⟩⟩ := by
  induction n with
  | zero =>
    rw [Response.received, List.append_nil]
    exact .refl
  | succ n ih =>
    obtain ⟨chunk, hchunk, hne⟩ := hgoing n (Nat.lt_succ_self n)
    refine (ih (fun i hi => hgoing i (Nat.lt_succ_of_lt hi)) fun hmax _ => ?_).trans ?_
    · have hle := hlimit hmax (Nat.succ_ne_zero n)
      have hmono := received_length_le (r := r) (n := n)
      rw [List.length_append] at hle ⊢
      omega
    · rw [received_succ hchunk, ← List.append_assoc] at hlimit ⊢
      have hread : St.go sha256 c ⟨some (f ++ r.received n), dest, d,
          .read ⟨r, total, n, (f ++ r.received n).length⟩⟩ false =
          some ⟨some (f ++ r.received n), dest, d,
            .checkRead ⟨r, total, n, (f ++ r.received n).length⟩ chunk⟩ := by
        simp only [St.go, hchunk, St.goto]
      have hwritten : St.go sha256 c ⟨some (f ++ r.received n), dest, d,
          .write ⟨r, total, n, (f ++ r.received n).length⟩ chunk⟩ false =
          some ⟨some (f ++ r.received n ++ chunk), dest, d,
            .checkWritten ⟨r, total, n + 1, (f ++ r.received n ++ chunk).length⟩⟩ := by
        simp only [St.go, St.written, Option.getD_some, ← List.length_append]
        rw [if_neg]
        · rfl
        · rintro ⟨hmax, hlt⟩
          exact absurd (hlimit hmax (Nat.succ_ne_zero n)) (Nat.not_le_of_lt hlt)
      have hcheck : St.go sha256 c ⟨some (f ++ r.received n), dest, d,
          .checkRead ⟨r, total, n, (f ++ r.received n).length⟩ chunk⟩ false =
          some (St.check ⟨some (f ++ r.received n), dest, d,
            .checkRead ⟨r, total, n, (f ++ r.received n).length⟩ chunk⟩ c.args.cancel false
            (.write ⟨r, total, n, (f ++ r.received n).length⟩ chunk)) := by
        simp only [St.go, List.isEmpty_iff, hne, if_false]
      exact .check rfl (.cons hread (.check hcheck (.cons hwritten (.check rfl (.cons rfl .refl)))))

theorem leads_hash {f done : Bytes} {d : Nat} (h : done <+: f) :
    Leads sha256 c ⟨some f, dest, d, .checkHash done⟩ ⟨some f, dest, d, .verify f⟩ := by
  induction hn : f.length - done.length using Nat.strong_induction_on generalizing done with
  | _ n ih =>
    have hchunk := hashed_prefix c.args.chunkBytes_pos h
    refine .check rfl ?_
    split at hchunk
    · rename_i hempty
      have hlast : St.go sha256 c ⟨some f, dest, d, .hash done⟩ false =
          some ⟨some f, dest, d, .verify done⟩ :=
        congrArg (fun pc => some (St.mk (some f) dest d pc)) (if_pos hempty)
      exact .cons hlast (hchunk ▸ .refl)
    · rename_i hmore
      have hnext : St.go sha256 c ⟨some f, dest, d, .hash done⟩ false =
          some ⟨some f, dest, d, .checkHash
            (done ++ (f.drop done.length).take c.args.chunkBytes)⟩ :=
        congrArg (fun pc => some (St.mk (some f) dest d pc)) (if_neg hmore)
      refine .cons hnext (ih _ ?_ hchunk rfl)
      have hle := hchunk.length_le
      have hpos : 0 < ((f.drop done.length).take c.args.chunkBytes).length := by
        rw [List.isEmpty_iff] at hmore
        exact List.length_pos_iff.mpr hmore
      rw [List.length_append] at hle ⊢
      omega

/-- The file is renamed into place, when the response comes to an end and its size and its digest
pass. -/
theorem leads_promoted {k : Nat} {r : Response} {body : Bytes}
    (hanswered : c.answered part = some (k, r)) (hbody : r.Delivers body)
      (hfits : Fits c part k r body)
      (haccepts : c.args.accepts (sha256 (base part k r ++ body)) = true) :
    ∃ t, Leads sha256 c (.start part dest) t ∧
      t.pc = .ended (.ok (sha256 (base part k r ++ body))) ∧
      t.dest = some (base part k r ++ body) := by
  obtain ⟨n, hgoing, hend, rfl⟩ := hbody
  obtain ⟨total, htotal⟩ := hfits.announced
  obtain ⟨d, hloop⟩ : ∃ d, Leads sha256 c (.start part dest) ⟨some (base part k r), dest, d, _⟩ :=
    leads_loop hanswered htotal
  have hreads := hloop.trans (leads_reads hgoing
    fun hmax hn => hfits.limit hmax (hgoing.received_ne_nil hn))
  generalize hf : base part k r ++ r.received n = f at haccepts hreads ⊢
  have hread : St.go sha256 c ⟨some f, dest, d, .read ⟨r, total, n, f.length⟩⟩ false =
      some ⟨some f, dest, d, .checkRead ⟨r, total, n, f.length⟩ []⟩ := by
    simp only [St.go, hend, St.goto]
  have hclose : Leads sha256 c ⟨some f, dest, d, .checkLoop ⟨r, total, n, f.length⟩⟩
      ⟨some f, dest, d, .checkHash []⟩ :=
    .check rfl (.cons hread (.check rfl (.cons rfl (.check rfl .refl))))
  have hverify : St.go sha256 c ⟨some f, dest, d, .verify f⟩ false =
      some ⟨some f, dest, d, .promote (sha256 f)⟩ := by
    simp only [St.go, St.verified, haccepts, if_true, St.goto]
  have hpromote : Leads sha256 c ⟨some f, dest, d, .promote (sha256 f)⟩
      ⟨none, some f, d, .ended (.ok (sha256 f))⟩ := by
    cases hcancel : c.args.cancel with
    | cancelEvent =>
      refine .cons ?_ .refl
      simp only [St.go, St.promote, hcancel]
      rfl
    | none | event =>
      refine .cons (t := ⟨some f, dest, d, .replace (sha256 f)⟩) ?_ (.cons rfl .refl)
      simp only [St.go, St.promote, hcancel, check_false]
      rfl
  exact ⟨_, hreads.trans (hclose.trans
    ((leads_hash List.nil_prefix).trans (.cons hverify hpromote))), rfl, rfl⟩

end Reach

/-! ## The file that is renamed into place -/

/-- The file of a download is complete: its size is the announced one, with the part that was there
for a 206; it is not over the limit; its digest is the expected one. -/
structure Complete (sha256 : Bytes → String) (a : Args) (k : Nat) (r : Response) (f : Bytes) :
    Prop where
  size : ∀ n, r.length = .ok (some n) → f.length = n + if r.isPartial then k else 0
  limit : 0 < a.maxBytes → f.length ≤ a.maxBytes
  digest : ∀ expected, a.expectedSha256 = some expected → isGiven expected = true →
    (sha256 f).toLower = expected.toLower

/-- The response that is read to its end and whose file passes the checks of the size and of the
digest: it is not cut short of the length it has announced; and if it has announced none and is
empty, the part that was there is not over the limit. -/
def Uncut (sha256 : Bytes → String) (c : Call) (part : Option Bytes) : Prop :=
  ∀ k r body, c.answered part = some (k, r) → r.Delivers body → Fits c part k r body →
    c.args.accepts (sha256 (base part k r ++ body)) = true →
    (∀ n, r.length = .ok (some n) → body.length = n) ∧
      (r.length = .ok none → body = [] → 0 <
        c.args.maxBytes → (base part k r).length ≤ c.args.maxBytes)

theorem announced_total {c : Call} {k n : Nat} {r : Response} {total : Option Nat}
    (hn : r.length = .ok (some n)) (h : St.announced c k r = .ok total) :
    c.args.exceeds (some (n + if r.isPartial then k else 0)) = false := by
  cases hexceeds : c.args.exceeds (some (n + if r.isPartial then k else 0)) with
  | false => rfl
  | true => simp [St.announced, hn, hexceeds] at h

theorem le_of_exceeds {a : Args} {total : Nat} (h : a.exceeds (some total) = false)
    (hmax : 0 < a.maxBytes) :
    total ≤ a.maxBytes := by
  simp only [Args.exceeds, Bool.and_eq_false_iff, decide_eq_false_iff_not, not_not] at h
  omega

theorem Uncut.complete {sha256 : Bytes → String} {c : Call} {part : Option Bytes} {k : Nat}
    {r : Response} {body : Bytes} (h : Uncut sha256 c part)
      (hanswered : c.answered part = some (k, r)) (hbody : r.Delivers body)
      (hfits : Fits c part k r body)
      (haccepts : c.args.accepts (sha256 (base part k r ++ body)) = true) :
    Complete sha256 c.args k r (base part k r ++ body) := by
  obtain ⟨hsize, hlimit⟩ := h k r body hanswered hbody hfits haccepts
  have hbase := base_length (answered_spec hanswered).2 r
  refine ⟨fun n hn => ?_, fun hmax => ?_, fun expected hexpected hgiven => ?_⟩
  · rw [List.length_append, hsize n hn, hbase, Nat.add_comm]
  · by_cases hnil : body = []
    · subst hnil
      obtain ⟨total, htotal⟩ := hfits.announced
      rw [List.append_nil]
      cases hlength : r.length with
      | error e => simp [St.announced, hlength] at htotal
      | ok announced =>
        cases announced with
        | none => exact hlimit hlength rfl hmax
        | some n =>
          -- an empty body that announces its length announces none, and the part alone was checked
          have hle := le_of_exceeds (announced_total hlength htotal) hmax
          rw [hbase] at hle ⊢
          cases hresumed : r.isPartial with
          | true =>
            simp only [hresumed, if_true] at hle ⊢
            omega
          | false => exact Nat.zero_le _
    · exact hfits.limit (Nat.ne_of_gt hmax) hnil
  · simp only [Args.accepts, hexpected, hgiven, Bool.not_true, Bool.false_or,
      beq_iff_eq] at haccepts
    exact haccepts

/-- What is renamed into place is complete in every run, exactly when the server does not cut the
response short. -/
theorem promoted_complete_iff (sha256 : Bytes → String) (c : Call) (part dest : Option Bytes) :
    (∀ choices t digest, Run (step sha256 c) (.start part dest) choices t →
      t.pc = .ended (.ok digest) →
      ∃ k r f, c.answered part = some (k, r) ∧ t.dest = some f ∧ Complete sha256 c.args k r f) ↔
      Uncut sha256 c part := by
  constructor
  · intro h k r body hanswered hbody hfits haccepts
    obtain ⟨t, ⟨n, hrun⟩, hended, hdest⟩ : ∃ t, Leads sha256 c (.start part dest) t ∧ _ :=
      leads_promoted hanswered hbody hfits haccepts
    obtain ⟨k', r', f, hanswered', hdest', hcomplete⟩ := h _ t _ hrun hended
    rw [hanswered] at hanswered'
    cases hanswered'
    rw [hdest] at hdest'
    cases hdest'
    have hbase := base_length (answered_spec hanswered).2 r
    refine ⟨fun m hm => ?_, fun _ hnil hmax => ?_⟩
    · have hsize := hcomplete.size m hm
      rw [List.length_append, hbase] at hsize
      omega
    · have hlimit := hcomplete.limit hmax
      rw [hnil, List.append_nil] at hlimit
      exact hlimit
  · intro h choices t digest hrun hended
    have htraced := (run_traced hrun).placed
    rw [hended] at htraced
    obtain ⟨f, ⟨k, r, body, hanswered, hbody, hfits, rfl⟩, hdest, -, hdigest, haccepts⟩ := htraced
    exact ⟨k, r, _, hanswered, hdest, h.complete hanswered hbody hfits (hdigest ▸ haccepts)⟩

/-- A body of four bytes that announces ten: the peer has closed the connection. -/
def truncated : Response where
  status := 200
  contentLength := some "10"
  body
    | 0 => .ok [116, 101, 115, 116]
    | _ => .ok []

def testSha256 (bytes : Bytes) : String :=
  if bytes = [116, 101, 115, 116] then
    "9f86d081884c7d659a2feaa0c55ad015a3bf4f1b2b0b822cd15d6c15b0f00a08"
  else ""

def testArgs : Args := ⟨none, 8192, .cancelEvent, 0, by decide⟩

def truncatedCall : Call where
  args := testArgs
  server _ := .response truncated

theorem truncated_promoted :
    truncated.length = .ok (some 10) ∧
      ∃ choices t, Run (step testSha256 truncatedCall) (.start none none) choices t ∧
        t.pc = .ended (.ok (testSha256 [116, 101, 115, 116])) ∧ t.dest = some [116, 101, 115, 116] ∧
        ∀ k r f, truncatedCall.answered none = some (k, r) → t.dest = some f →
          ¬ Complete testSha256 truncatedCall.args k r f := by
  have hlength : truncated.length = .ok (some 10) := by decide +kernel
  have hbody : truncated.Delivers [116, 101, 115, 116] := by
    refine ⟨1, fun i hi => ⟨[116, 101, 115, 116], ?_, List.cons_ne_nil _ _⟩, rfl, rfl⟩
    rw [Nat.lt_one_iff.mp hi]
    rfl
  have hfits : Fits truncatedCall none 0 truncated [116, 101, 115, 116] := by
    refine ⟨⟨some 10, ?_⟩, fun h => absurd rfl h⟩
    simp only [St.announced, hlength]
    rfl
  obtain ⟨t, ⟨n, hrun⟩, hended, hdest⟩ : ∃ t,
      Leads testSha256 truncatedCall (.start none none) t ∧ _ :=
    leads_promoted rfl hbody hfits rfl
  refine ⟨hlength, _, t, hrun, hended, hdest, fun k r f hanswered hf hcomplete => ?_⟩
  rw [hdest] at hf
  cases hanswered
  cases hf
  have hsize := hcomplete.size 10 hlength
  cases hsize

end Downloader

end InferenceEngine
