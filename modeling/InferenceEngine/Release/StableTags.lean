import InferenceEngine.Lib.Results
import InferenceEngine.Lib.Run
import InferenceEngine.Release.Versions

/-!
# Release.StableTags

`stable_tags`, and the tags of the registry over any order of releases.

* `IsHighest`: a pointer to the highest of what was released on a line. It stays that when it moves
  to a new release exactly if nothing released on the line is higher (`IsHighest.release`).
* `stableTags_spec`: which tags a release gets, in terms of the versions released before.
* `run_labels`: versions can be released in any order; no release fails that finds the tags of those
  before it.
* `tags_highest`: in every run each convenience tag is such a pointer, each version's tag is its
  own, and no tag moves backwards.
-/

namespace InferenceEngine
namespace Release

open Lts

section Pointer

variable {α β : Type} [LinearOrder β] (rank : α → β) (line : α → Prop)

/-- What is pointed to is the highest on the line, and nothing is where nothing is on the line. -/
def IsHighest (released : List α) : Option α → Prop
  | none => ∀ u ∈ released, ¬ line u
  | some w => w ∈ released ∧ line w ∧ ∀ u ∈ released, line u → rank u ≤ rank w

/-- A release that moves the pointer. -/
def Moves (released : List α) (v : α) : Prop := line v ∧ ∀ u ∈ released, line u → rank u ≤ rank v

variable {rank line} {released : List α} {p q : Option α} {v : α}

theorem IsHighest.release (h : IsHighest rank line released p)
    (hmoved : Moves rank line released v → q = some v)
      (hkept : ¬ Moves rank line released v → q = p) :
    IsHighest rank line (released ++ [v]) q := by
  by_cases hv : Moves rank line released v
  · rw [hmoved hv]
    refine ⟨List.mem_append_right _ (List.mem_singleton_self v), hv.1, ?_⟩
    intro u hu hline
    rcases List.mem_append.mp hu with hold | hnew
    · exact hv.2 u hold hline
    · rw [List.mem_singleton.mp hnew]
  · rw [hkept hv]
    cases p with
    | none =>
      -- nothing is on the line, so `v` is not either
      intro u hu hline
      rcases List.mem_append.mp hu with hold | hnew
      · exact h u hold hline
      · obtain rfl := List.mem_singleton.mp hnew
        exact hv ⟨hline, fun o ho honline => absurd honline (h o ho)⟩
    | some w =>
      obtain ⟨hmem, hw, hle⟩ := h
      refine ⟨List.mem_append_left _ hmem, hw, ?_⟩
      intro u hu hline
      rcases List.mem_append.mp hu with hold | hnew
      · exact hle u hold hline
      · obtain rfl := List.mem_singleton.mp hnew
        by_contra hhigher
        exact hv ⟨hline, fun o ho honline => (hle o ho honline).trans (le_of_not_ge hhigher)⟩

theorem IsHighest.forward (h : IsHighest rank line released p)
    (hmoved : Moves rank line released v → q = some v) (hkept : ¬ Moves rank line released v →
      q = p) {w : α} (hp : p = some w) : ∃ w', q = some w' ∧ rank w ≤ rank w' := by
  subst hp
  by_cases hv : Moves rank line released v
  · exact ⟨v, hmoved hv, hv.2 w h.1 h.2.1⟩
  · exact ⟨w, hkept hv, le_refl _⟩

end Pointer

variable (D : Digits)

/-- The versions of the existing tags. -/
def tagVersions (existing : List (List Char)) : Except Error (List VTuple) :=
  (existing.filter (tagMatch D)).mapM fun tag => do vtuple D (← parseTag D tag)

/-- `stable_tags`. -/
def stableTags (version : List Char) (existing : List (List Char)) :
    Except Error (List (List Char)) := do
  let mine ← vtuple D version
  let others ← tagVersions D existing
  let others := others.filter fun o => o ≠ mine
  let minor := others.filter fun o => o.major = mine.major && o.minor = mine.minor
  let major := others.filter fun o => o.major = mine.major
  return [tagOf version] ++
    (if minor.all fun o => o ≤ mine then [str mine.major ++ '.' :: str mine.minor] else []) ++
    (if major.all fun o => o ≤ mine then [str mine.major] else []) ++
    (if others.all fun o => o ≤ mine then [latest] else [])

/-- The versions released so far, in order, and where the tags of the registry point. -/
structure St where
  released : List (Version D)
  registry : List Char → Option (Version D)

structure Label where
  version : Version D
  existing : List (List Char)

def init : St D := ⟨[], fun _ => none⟩

variable {D}

/-- Are the release tags found those of the versions released so far, with or without the new one's
own? Other tags may be there as well. -/
def lists (s : St D) (l : Label D) : Bool :=
  (s.released.all fun u => l.existing.contains (tagOf u.text)) &&
    l.existing.all fun tag =>
      !tagMatch D tag || tag == tagOf l.version.text || s.released.any fun u => tag == tagOf u.text

/-- The registry after `skopeo copy` to each of the tags. -/
def apply (registry : List Char → Option (Version D)) (v : Version D) (tags : List (List Char)) :
    List Char → Option (Version D) :=
  fun tag => if tags.contains tag then some v else registry tag

/-- A release that finds the tags of the versions released so far, and applies the tags that it is
given. -/
def step (s : St D) (l : Label D) : Option (St D) :=
  if lists s l then
    match stableTags D l.version.text l.existing with
    | .error _ => none
    | .ok tags => some ⟨s.released ++ [l.version], apply s.registry l.version tags⟩
  else none

section Tags

theorem lists_iff {s : St D} {l : Label D} : lists s l = true ↔
    (∀ u ∈ s.released, tagOf u.text ∈ l.existing) ∧
      ∀ tag ∈ l.existing, tagMatch D tag = true →
        tag = tagOf l.version.text ∨ ∃ u ∈ s.released, tag = tagOf u.text := by
  simp only [lists, Bool.and_eq_true, List.all_eq_true, List.contains_iff_mem, Bool.or_eq_true,
    Bool.not_eq_true', beq_iff_eq, List.any_eq_true]
  refine and_congr_right fun _ => forall₂_congr fun tag _ => ?_
  cases tagMatch D tag <;> simp

/-- The versions of the existing tags are those released, and the new one. -/
theorem tagVersions_of_lists {s : St D} {l : Label D} (hl : lists s l = true) {others : List VTuple}
    (h : tagVersions D l.existing = .ok others) :
    (∀ u ∈ s.released, u.tuple ∈ others) ∧
      ∀ o ∈ others, o = l.version.tuple ∨ ∃ u ∈ s.released, o = u.tuple := by
  obtain ⟨hall, honly⟩ := lists_iff.mp hl
  have hresults := Results.mapM_ok h
  have htuple : ∀ (w : Version D) {o : VTuple},
      (do vtuple D (← parseTag D (tagOf w.text))) = .ok o → o = w.tuple := by
    intro w o ho
    rw [w.parseTag_tagOf] at ho
    exact Except.ok.inj (ho.symm.trans w.valid)
  constructor
  · intro u hu
    have hmem : tagOf u.text ∈ l.existing.filter (tagMatch D) :=
      List.mem_filter.mpr ⟨hall u hu, u.tagMatch⟩
    obtain ⟨o, ho, hread⟩ := Results.exists_result hresults hmem
    rwa [← htuple u hread]
  · intro o ho
    obtain ⟨tag, htag, hread⟩ := Results.exists_item hresults ho
    obtain ⟨hmem, hmatch⟩ := List.mem_filter.mp htag
    rcases honly tag hmem hmatch with rfl | ⟨u, hu, rfl⟩
    · exact .inl (htuple _ hread)
    · exact .inr ⟨u, hu, htuple u hread⟩

/-- The pointer of a line moves to a release. -/
def Line.Moves (line : Line) (released : List (Version D)) (v : Version D) : Prop :=
  Release.Moves Version.tuple (fun u => line.has u.tuple = true) released v

/-- The comparison with the other versions of a line. -/
theorem all_le_iff {s : St D} {l : Label D} (hl : lists s l = true) {others : List VTuple}
    (h : tagVersions D l.existing = .ok others) (line : Line)
      (hline : line.has l.version.tuple = true) :
      (((others.filter fun o => o ≠ l.version.tuple).filter line.has).all fun o => o ≤
      l.version.tuple) = true ↔
      line.Moves s.released l.version := by
  obtain ⟨hall, honly⟩ := tagVersions_of_lists hl h
  simp only [List.all_eq_true, List.mem_filter, decide_eq_true_eq, Line.Moves, Release.Moves,
    hline, true_and]
  constructor
  · intro hle u hu honline
    by_cases hsame : u.tuple = l.version.tuple
    · rw [hsame]
    · exact hle u.tuple ⟨⟨hall u hu, hsame⟩, honline⟩
  · rintro hle o ⟨⟨ho, hne⟩, honline⟩
    rcases honly o ho with rfl | ⟨u, hu, rfl⟩
    · exact absurd rfl hne
    · exact hle u hu honline

theorem stableTags_spec {s : St D} {l : Label D} (hl : lists s l = true) {tags : List (List Char)}
    (h : stableTags D l.version.text l.existing = .ok tags) (tag : List Char) :
    tag ∈ tags ↔ tag = tagOf l.version.text ∨
      ∃ line : Line, tag = line.tag ∧ line.Moves s.released l.version := by
  unfold stableTags at h
  rw [l.version.valid] at h
  cases hothers : tagVersions D l.existing with
  | error e => rw [hothers] at h; cases h
  | ok others =>
    rw [hothers] at h
    obtain rfl := Except.ok.inj h
    let mine := l.version.tuple
    have hminor := all_le_iff hl hothers (.minor mine.major mine.minor) (by simp [Line.has, mine])
    have hmajor := all_le_iff hl hothers (.major mine.major) (by simp [Line.has, mine])
    have hlatest := all_le_iff hl hothers .all rfl
    rw [show Line.all.has = fun _ => true from rfl, List.filter_true] at hlatest
    simp only [List.mem_append, List.mem_singleton, List.mem_ite_nil_right]
    constructor
    · rintro (((hown | ⟨hmoves, rfl⟩) | ⟨hmoves, rfl⟩) | ⟨hmoves, rfl⟩)
      · exact .inl hown
      · exact .inr ⟨.minor mine.major mine.minor, rfl, hminor.mp hmoves⟩
      · exact .inr ⟨.major mine.major, rfl, hmajor.mp hmoves⟩
      · exact .inr ⟨.all, rfl, hlatest.mp hmoves⟩
    · rintro (hown | ⟨line, rfl, hmoves⟩)
      · exact .inl (.inl (.inl hown))
      · have hhas := hmoves.1
        cases line with
        | minor x y =>
          simp only [Line.has, Bool.and_eq_true, decide_eq_true_eq] at hhas
          obtain ⟨rfl, rfl⟩ := hhas
          exact .inl (.inl (.inr ⟨hminor.mpr hmoves, rfl⟩))
        | major x =>
          simp only [Line.has, decide_eq_true_eq] at hhas
          subst hhas
          exact .inl (.inr ⟨hmajor.mpr hmoves, rfl⟩)
        | all => exact .inr ⟨hlatest.mpr hmoves, rfl⟩

end Tags

section Runs

variable {s s' : St D} {l : Label D}

theorem step_spec (h : step s l = some s') : s'.released = s.released ++ [l.version] ∧
    s'.registry (tagOf l.version.text) = some l.version ∧
      (∀ u : Version D, u.text ≠ l.version.text →
      s'.registry (tagOf u.text) = s.registry (tagOf u.text)) ∧
        ∀ line : Line, (line.Moves s.released l.version → s'.registry line.tag = some l.version) ∧
          (¬ line.Moves s.released l.version → s'.registry line.tag = s.registry line.tag) := by
  unfold step at h
  split at h
  · next hl =>
    cases htags : stableTags D l.version.text l.existing with
    | error e => rw [htags] at h; cases h
    | ok tags =>
      rw [htags] at h
      obtain rfl := Option.some.inj h
      have hspec := stableTags_spec hl htags
      have hin : ∀ {tag : List Char}, tag ∈ tags → apply s.registry l.version tags tag =
          some l.version :=
        fun htag => if_pos (List.contains_iff_mem.mpr htag)
      have hout : ∀ {tag : List Char}, tag ∉ tags → apply s.registry l.version tags tag =
          s.registry tag :=
        fun htag => if_neg (fun hmem => htag (List.contains_iff_mem.mp hmem))
      refine ⟨rfl, hin ((hspec _).mpr (.inl rfl)), ?_, ?_⟩
      · intro u hne
        refine hout fun hmem => ?_
        rcases (hspec _).mp hmem with hown | ⟨line, hline, -⟩
        · exact hne (List.cons.inj hown).2
        · exact line.tag_ne_tagOf _ hline.symm
      · intro line
        refine ⟨fun hmoves => hin ((hspec _).mpr (.inr ⟨line, rfl, hmoves⟩)),
          fun hkept => hout fun hmem => ?_⟩
        rcases (hspec _).mp hmem with hown | ⟨line', hline, hmoves⟩
        · exact line.tag_ne_tagOf _ hown
        · obtain rfl := Line.tag_inj hline
          exact hkept hmoves
  · cases h

theorem step_of_lists (hl : lists s l = true) : ∃ s', step s l = some s' := by
  obtain ⟨-, honly⟩ := lists_iff.mp hl
  obtain ⟨others, hothers⟩ : ∃ others, tagVersions D l.existing = .ok others := by
    refine Results.mapM_of_ok fun tag htag => ?_
    obtain ⟨hmem, hmatch⟩ := List.mem_filter.mp htag
    have hread : ∀ w : Version D, ∃ o, (do vtuple D (← parseTag D (tagOf w.text))) =
        .ok o := fun w =>
      ⟨w.tuple, by rw [w.parseTag_tagOf]; exact w.valid⟩
    rcases honly tag hmem hmatch with rfl | ⟨u, -, rfl⟩
    · exact hread l.version
    · exact hread u
  have htags : ∃ tags, stableTags D l.version.text l.existing = .ok tags := by
    rw [stableTags, l.version.valid, hothers]
    exact ⟨_, rfl⟩
  obtain ⟨tags, htags⟩ := htags
  exact ⟨_, by rw [step, if_pos hl, htags]⟩

/-- Releases that find exactly the tags of those before them. -/
def labels : List (Version D) → List (Version D) → List (Label D)
  | _, [] => []
  | before, v :: vs => ⟨v, before.map fun u => tagOf u.text⟩ :: labels (before ++ [v]) vs

theorem run_labels (vs : List (Version D)) :
    ∀ s : St D, ∃ t, Run step s (labels s.released vs) t ∧ t.released = s.released ++ vs := by
  induction vs with
  | nil => exact fun s => ⟨s, .refl, (List.append_nil _).symm⟩
  | cons v vs ih =>
    intro s
    have hl : lists s ⟨v, s.released.map fun u => tagOf u.text⟩ = true := by
      refine lists_iff.mpr ⟨fun u hu => List.mem_map_of_mem hu, ?_⟩
      intro tag htag _
      obtain ⟨u, hu, rfl⟩ := List.mem_map.mp htag
      exact .inr ⟨u, hu, rfl⟩
    obtain ⟨s', hst⟩ := step_of_lists hl
    have hreleased := (step_spec hst).1
    obtain ⟨t, hrun, ht⟩ := ih s'
    rw [hreleased] at hrun ht
    exact ⟨t, .cons hst hrun, by rw [ht, List.append_assoc]; rfl⟩

structure TagsRight (s : St D) : Prop where
  own : ∀ u ∈ s.released, s.registry (tagOf u.text) = some u
  highest : ∀ line : Line,
    IsHighest Version.tuple (fun u => line.has u.tuple = true) s.released (s.registry line.tag)

theorem TagsRight.step (hs : TagsRight s) (h : step s l = some s') : TagsRight s' := by
  obtain ⟨hreleased, hown, hother, hlines⟩ := step_spec h
  constructor
  · intro u hu
    by_cases hsame : u.text = l.version.text
    · rw [Version.ext_text hsame, hown]
    · rw [hreleased] at hu
      rcases List.mem_append.mp hu with hold | hnew
      · rw [hother u hsame, hs.own u hold]
      · exact absurd (congrArg Version.text (List.mem_singleton.mp hnew)) hsame
  · intro line
    rw [hreleased]
    exact (hs.highest line).release (hlines line).1 (hlines line).2

/-- No convenience tag moves backwards. -/
def Forward (s s' : St D) : Prop :=
  ∀ (line : Line) (w : Version D), s.registry line.tag = some w →
    ∃ w', s'.registry line.tag = some w' ∧ w.tuple ≤ w'.tuple

theorem TagsRight.forward (hs : TagsRight s) (h : Release.step s l = some s') : Forward s s' := by
  obtain ⟨-, -, -, hlines⟩ := step_spec h
  exact fun line w hw => (hs.highest line).forward (hlines line).1 (hlines line).2 hw

theorem tagsRight_init : TagsRight (init D) :=
  ⟨fun _ h => absurd h List.not_mem_nil, fun _ _ h => absurd h List.not_mem_nil⟩

/-- In every run of releases, in any order, the tag of each line points to the highest version
released on it, the tag of each version to the version, and no convenience tag moves backwards. -/
theorem tags_highest {ls : List (Label D)} {t : St D} (h : Run step (init D) ls t) :
    TagsRight t ∧ Along step (fun s _ s' => Forward s s') (init D) ls := by
  refine ⟨h.invariant (fun _ _ _ hs hst => hs.step hst) tagsRight_init, ?_⟩
  exact along_of_invariant (I := TagsRight) (p := fun _ => True)
    (fun _ _ _ hs _ hst => ⟨hs.forward hst, hs.step hst⟩) tagsRight_init fun _ _ => trivial

/-- `1.0.1` is released after `1.1.0`: `1.0` moves to it, `1` and `latest` stay. -/
theorem tags_highest_backport : ∃ (v100 v110 v101 : Version asciiDigits) (t : St asciiDigits),
    v100.text = "1.0.0".toList ∧ v110.text = "1.1.0".toList ∧ v101.text = "1.0.1".toList ∧
      t.released = [v100, v110, v101] ∧
      (TagsRight t ∧ Along step (fun s _ s' => Forward s s') (init asciiDigits)
        (labels [] [v100, v110, v101])) ∧
      t.registry "1.0".toList = some v101 ∧ t.registry "1".toList = some v110 ∧
      t.registry latest = some v110 := by
  let v100 : Version asciiDigits := ⟨"1.0.0".toList, ⟨1, 0, 0⟩, rfl⟩
  let v110 : Version asciiDigits := ⟨"1.1.0".toList, ⟨1, 1, 0⟩, rfl⟩
  let v101 : Version asciiDigits := ⟨"1.0.1".toList, ⟨1, 0, 1⟩, rfl⟩
  obtain ⟨t, hrun, h⟩ : ∃ t, Run step (init asciiDigits) (labels [] [v100, v110, v101]) t ∧
      (t.released, t.registry "1.0".toList, t.registry "1".toList, t.registry latest) =
        ([v100, v110, v101], some v101, some v110, some v110) := run_of_exec_map rfl
  simp only [Prod.mk.injEq] at h
  exact ⟨v100, v110, v101, t, rfl, rfl, rfl, h.1, tags_highest hrun, h.2⟩

end Runs

end Release
end InferenceEngine
