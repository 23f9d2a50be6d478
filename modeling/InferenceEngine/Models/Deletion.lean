import InferenceEngine.Models.Ownership
import Mathlib.Data.List.Pairwise

/-!
# Models.Deletion

What a delete does to the files of other models. Nothing stops two rows from sharing a file:
`import_local` does not look at the rows, and neither looks at the partial file of a download.
`Apart` says of two models that neither unlinks what the other uses. In a run whose new models are
apart from those there are (`mayAdd`), every delete leaves the files of the others as they are, and
the file of every ready model is there (`Sound`).

A path is followed over links, so what a model uses can change; it never becomes more (`Frame`).
-/

namespace InferenceEngine
namespace ModelService

open Lts FileTree

/-- A model as the files see it. -/
abbrev Holder := SourceType × String

/-- The entries a model needs: those its path leads over and, for a download, those of its partial
file. -/
def uses (p : Paths) (files : FileTree String) (h : Holder) : List String :=
  files.chain (p.entry h.2) ++ if h.1 = .importFile then []
    else files.chain (p.entry (partPath h.2))

/-- Deleting the one leaves the other alone. -/
def Spares (p : Paths) (files : FileTree String) (h h' : Holder) : Prop :=
  ∀ e ∈ p.unlinked files h.1 h.2, e ∉ uses p files h'

instance (p : Paths) (files : FileTree String) (h h' : Holder) : Decidable (Spares p files h h') :=
  inferInstanceAs (Decidable (∀ e ∈ _, _))

def Apart (p : Paths) (files : FileTree String) (h h' : Holder) : Prop :=
  Spares p files h h' ∧ Spares p files h' h

instance (p : Paths) (files : FileTree String) (h h' : Holder) : Decidable (Apart p files h h') :=
  inferInstanceAs (Decidable (_ ∧ _))

def rowHolder (r : ModelRecord) : Holder := (r.sourceType, r.path)

def importHolder (i : Import) : Holder := (.importFile, i.path)

/-- The models, and the files that are being imported. -/
def St.holders (s : St) : List Holder := s.rows.map rowHolder ++ s.imports.values.map importHolder

/-- What is added is apart from what is there. -/
def mayAdd (p : Paths) (s : St) : Label → Prop
  | .startDownload id base sourceType =>
    s.mayDownload p id base sourceType → ∀ h ∈ s.holders,
      Apart p s.files (sourceType, p.dest base) h
  | .importLocal path valid =>
    s.mayImport p path valid → ∀ h ∈ s.holders, Apart p s.files (.importFile, path) h
  | .registerConfigured path id =>
    s.mayRegister p path id → ∀ h ∈ s.holders, Apart p s.files (.importFile, path) h
  | _ => True

instance (p : Paths) (s : St) (l : Label) : Decidable (mayAdd p s l) :=
  match l with
  | .startDownload _ _ _ | .importLocal _ _ | .registerConfigured _ _ =>
    inferInstanceAs (Decidable (_ → _))
  | .run _ _ _ | .touch _ _ | .threadReturns _ _ | .resume _ _ _ _ | .cancel _ | .cancelTask _ | .deliver _
  | .hashed _ | .imported _ _ _ | .importCancelled _ | .orphanReturns _ | .beginOperation _ | .endOperation _
  | .delete _ _ | .restart | .reconcile | .shutdown | .wake | .shutdownCancelled =>
    inferInstanceAs (Decidable True)

structure Sound (p : Paths) (s : St) : Prop where
  apart : s.holders.Pairwise (Apart p s.files)
  ready : ∀ r ∈ s.rows, r.status = .ready → r.id ∉ s.tried → s.exists? p r.path = true
  live : ∀ r ∈ s.rows, r.id ∈ s.tasks.keys → r.status = .downloading ∧ r.sourceType ≠ .importFile

variable {p : Paths} {s s' : St} {id : String} {files files' : FileTree String} {h h' : Holder}

theorem Apart.symm (ha : Apart p files h h') : Apart p files h' h := ⟨ha.2, ha.1⟩

/-! ## What a change of the files does to a model -/

/-- The model uses and unlinks no more than before. -/
def Frame (p : Paths) (files files' : FileTree String) (h : Holder) : Prop :=
  uses p files' h ⊆ uses p files h ∧ p.unlinked files' h.1 h.2 ⊆ p.unlinked files h.1 h.2

theorem Apart.mono (ha : Apart p files h h') (hf : Frame p files files' h)
    (hf' : Frame p files files' h') :
    Apart p files' h h' :=
  ⟨fun e he hu => ha.1 e (hf.2 he) (hf'.1 hu), fun e he hu => ha.2 e (hf'.2 he) (hf.1 hu)⟩

theorem mem_uses_of_mem_chain {e : String} (he : e ∈ files.chain (p.entry h.2)) :
    e ∈ uses p files h :=
  List.mem_append_left _ he

theorem uses_congr (hget : ∀ e ∈ uses p files h, files'.get e = files.get e) :
    uses p files' h = uses p files h := by
  unfold uses at hget ⊢
  rw [chain_congr fun e he => hget e (List.mem_append_left _ he)]
  split
  · rfl
  · rename_i hsource
    rw [chain_congr fun e he => hget e (List.mem_append_right _ (by rw [if_neg hsource]; exact he))]

theorem unlinked_congr (hget : ∀ e ∈ uses p files h, files'.get e = files.get e) :
    p.unlinked files' h.1 h.2 = p.unlinked files h.1 h.2 := by
  unfold Paths.unlinked Paths.key
  rw [resolve_congr fun e he => hget e (mem_uses_of_mem_chain he)]

theorem frame_congr (hget : ∀ e ∈ uses p files h, files'.get e = files.get e) :
    Frame p files files' h := by
  rw [Frame, uses_congr hget, unlinked_congr hget]
  exact ⟨List.Subset.refl _, List.Subset.refl _⟩

/-- One that unlinks nothing of it, and changes nothing else. -/
theorem Spares.get (hs : Spares p files h h')
    (hout : ∀ e ∉ p.unlinked files h.1 h.2, files'.get e = files.get e) :
    ∀ e ∈ uses p files h', files'.get e = files.get e :=
  fun e he => hout e fun hmem => hs e hmem he

theorem uses_write (e : String) (h : Holder) : uses p (files.write e) h = uses p files h := by
  unfold uses
  rw [chain_write, chain_write]

theorem unlinked_write (e : String) (h : Holder) :
    p.unlinked (files.write e) h.1 h.2 = p.unlinked files h.1 h.2 := by
  unfold Paths.unlinked Paths.key resolve
  rw [(follow_write maxLinks e (p.entry h.2)).2]

theorem frame_write (e : String) (h : Holder) : Frame p files (files.write e) h := by
  rw [Frame, uses_write, unlinked_write]
  exact ⟨List.Subset.refl _, List.Subset.refl _⟩

theorem unlinked_subset (files : FileTree String) (sourceType : SourceType) (path : String) :
    p.unlinked files sourceType path ⊆ [p.entry path, p.entry (partPath path)] := by
  unfold Paths.unlinked
  split
  · exact List.Subset.refl _
  · exact List.nil_subset _

/-- A change of the files of a model that it manages itself. -/
theorem frame_managed (hpair : p.unlinked files h.1 h.2 = [p.entry h.2, p.entry (partPath h.2)])
    (huses : uses p files' h ⊆ uses p files h) : Frame p files files' h :=
  ⟨huses, hpair ▸ unlinked_subset files' h.1 h.2⟩

theorem uses_unlink (e : String) (h : Holder) : uses p (files.unlink e) h ⊆ uses p files h := by
  unfold uses
  split
  · exact List.append_subset.mpr
      ⟨fun x hx => List.mem_append_left _ (chain_unlink_subset files e _ hx), List.nil_subset _⟩
  · exact List.append_subset.mpr
      ⟨fun x hx => List.mem_append_left _ (chain_unlink_subset files e _ hx),
        fun x hx => List.mem_append_right _ (chain_unlink_subset files e _ hx)⟩

theorem uses_rename (hsource : h.1 ≠ .importFile)
    (hpart : files.get (p.entry (partPath h.2)) ≠ none) :
    uses p (files.rename (p.entry (partPath h.2)) (p.entry h.2)) h ⊆ uses p files h := by
  unfold uses
  rw [if_neg hsource, if_neg hsource]
  have hsub : p.entry h.2 :: files.chain (p.entry (partPath h.2)) ⊆
      files.chain (p.entry h.2) ++ files.chain (p.entry (partPath h.2)) :=
    List.cons_subset.mpr ⟨List.mem_append_left _ (mem_chain_self files _),
      List.subset_append_right _ _⟩
  exact List.append_subset.mpr
    ⟨List.Subset.trans (chain_rename hpart) hsub, List.Subset.trans (chain_rename_old hpart) hsub⟩

theorem unlinked_of_download {sourceType : SourceType} (hsource : sourceType ≠ .importFile)
    (files : FileTree String) (path : String) :
    p.unlinked files sourceType path = [p.entry path, p.entry (partPath path)] :=
  if_pos (.inl hsource)

theorem mem_of_get? {row : ModelRecord} (hget : s.get? id = some row) :
    row ∈ s.rows ∧ row.id = id := by
  unfold St.get? at hget
  have hid := List.find?_some hget
  exact ⟨List.mem_of_find?_eq_some hget, of_decide_eq_true hid⟩

namespace Sound

theorem init (p : Paths) (files : FileTree String) : Sound p (.init [] files) where
  apart := List.Pairwise.nil
  ready := fun _ hr => absurd hr List.not_mem_nil
  live := fun _ hr => absurd hr List.not_mem_nil

theorem apart_rows (hs : Sound p s) {r r' : ModelRecord} (hr : r ∈ s.rows) (hr' : r' ∈ s.rows)
    (hne : r ≠ r') :
    Apart p s.files (rowHolder r) (rowHolder r') := by
  have hrows := List.pairwise_map.mp (List.pairwise_append.mp hs.apart).1
  have : Std.Symm fun r r' => Apart p s.files (rowHolder r) (rowHolder r') :=
    ⟨fun _ _ ha => ha.symm⟩
  exact hrows.forall hr hr' hne

theorem apart_import (hs : Sound p s) {r : ModelRecord} {i : Import} (hr : r ∈ s.rows)
    (hi : i ∈ s.imports.values) : Apart p s.files (rowHolder r) (importHolder i) := by
  refine (List.pairwise_append.mp hs.apart).2.2 _ ?_ _ ?_
  · exact List.mem_map.mpr ⟨r, hr, rfl⟩
  · exact List.mem_map.mpr ⟨i, hi, rfl⟩

theorem apart_imports (hs : Sound p s) {e e' : String × Import} (he : e ∈ s.imports)
    (he' : e' ∈ s.imports) (hne : e ≠ e') :
    Apart p s.files (importHolder e.2) (importHolder e'.2) := by
  have hvalues := (List.pairwise_append.mp hs.apart).2.1
  rw [Dict.values, List.map_map] at hvalues
  have himports : s.imports.Pairwise fun e e' => Apart p s.files (importHolder e.2)
      (importHolder e'.2) :=
    List.pairwise_map.mp hvalues
  have : Std.Symm fun e e' : String × Import => Apart p s.files (importHolder e.2)
    (importHolder e'.2) :=
    ⟨fun _ _ ha => ha.symm⟩
  exact himports.forall he he' hne

/-- The files of all models change, for none to more than it used. -/
theorem setFiles (hs : Sound p s) (hframe : ∀ h ∈ s.holders, Frame p s.files files' h)
    (hready : ∀ r ∈ s.rows, r.status = .ready → r.id ∉ s.tried → s.exists? p r.path = true →
      files'.isFile (p.entry r.path) = true) : Sound p { s with files := files' } where
  apart := hs.apart.imp_of_mem fun ha hb hab => hab.mono (hframe _ ha) (hframe _ hb)
  ready := fun r hr hstatus htried => hready r hr hstatus htried (hs.ready r hr hstatus htried)
  live := hs.live

theorem write (hs : Sound p s) (e : String) : Sound p { s with files := s.files.write e } :=
  hs.setFiles (fun h _ => frame_write e h) fun _ _ _ _ hfile => isFile_write hfile

/-- A model changes what it manages itself, and nothing else. -/
theorem change (hs : Sound p s) {r₀ : ModelRecord} (hr₀ : r₀ ∈ s.rows)
    (hout : ∀ e ∉ p.unlinked s.files r₀.sourceType r₀.path, files'.get e = s.files.get e)
    (hown : Frame p s.files files' (rowHolder r₀)) (hready : r₀.status = .ready → r₀.id ∈ s.tried) :
    Sound p { s with files := files' } := by
  have hrow : ∀ r ∈ s.rows, r ≠ r₀ → ∀ e ∈ uses p s.files (rowHolder r),
      files'.get e = s.files.get e :=
    fun r hr hne => (hs.apart_rows hr₀ hr hne.symm).1.get hout
  refine hs.setFiles ?_ ?_
  · intro h hh
    rcases List.mem_append.mp hh with hh | hh
    · obtain ⟨r, hr, rfl⟩ := List.mem_map.mp hh
      by_cases heq : r = r₀
      · exact heq ▸ hown
      · exact frame_congr (hrow r hr heq)
    · obtain ⟨i, hi, rfl⟩ := List.mem_map.mp hh
      exact frame_congr ((hs.apart_import hr₀ hi).1.get hout)
  · intro r hr hstatus htried hfile
    have hne : r ≠ r₀ := by
      rintro rfl
      exact htried (hready hstatus)
    exact (isFile_congr fun e he => hrow r hr hne e (mem_uses_of_mem_chain he)).trans hfile

theorem keep (hs : Sound p s) (hrows : s'.rows = s.rows) (hfiles : s'.files = s.files)
    (himports : s'.imports = s.imports) (htried : s.tried ⊆ s'.tried)
    (hlive : ∀ id ∈ s'.tasks.keys, id ∈ s.tasks.keys) : Sound p s' where
  apart := by
    rw [St.holders, hrows, himports, hfiles]
    exact hs.apart
  ready := by
    intro r hr hstatus hnot
    rw [St.exists?, hfiles]
    exact hs.ready r (hrows ▸ hr) hstatus fun hmem => hnot (htried hmem)
  live := fun r hr hid => hs.live r (hrows ▸ hr) (hlive r.id hid)

theorem same (hs : Sound p s) (hrows : s'.rows = s.rows) (hfiles : s'.files = s.files)
    (himports : s'.imports = s.imports) (htried : s'.tried = s.tried)
      (htasks : s'.tasks = s.tasks) :
    Sound p s' :=
  hs.keep hrows hfiles himports (htried ▸ List.Subset.refl _) fun _ hid => htasks ▸ hid

theorem setRows (hs : Sound p s) {f : ModelRecord → ModelRecord} (hid : ∀ r, (f r).id = r.id)
    (hholder : ∀ r, rowHolder (f r) = rowHolder r)
    (hready : ∀ r ∈ s.rows, (f r).status = .ready → r.status = .ready ∨ s.exists? p r.path = true)
    (hlive : ∀ r ∈ s.rows, r.id ∈ s.tasks.keys → (f r).status = r.status) :
    Sound p { s with rows := s.rows.map f } := by
  refine ⟨?_, ?_, ?_⟩
  · have hholders : (s.rows.map f).map rowHolder = s.rows.map rowHolder := by
      rw [List.map_map]
      exact List.map_congr_left fun r _ => hholder r
    rw [St.holders, hholders]
    exact hs.apart
  · intro r hr hstatus htried
    obtain ⟨r₀, hr₀, rfl⟩ := List.mem_map.mp hr
    rw [hid] at htried
    have hpath : (f r₀).path = r₀.path := (Prod.mk.inj (hholder r₀)).2
    rw [hpath]
    rcases hready r₀ hr₀ hstatus with hold | hfile
    · exact hs.ready r₀ hr₀ hold htried
    · exact hfile
  · intro r hr hmem
    obtain ⟨r₀, hr₀, rfl⟩ := List.mem_map.mp hr
    rw [hid] at hmem
    rw [hlive r₀ hr₀ hmem, (Prod.mk.inj (hholder r₀)).1]
    exact hs.live r₀ hr₀ hmem

theorem drop (hs : Sound p s) {rows : List ModelRecord} {imports : Dict String Import}
    (hrows : rows.Sublist s.rows) (himports : imports.Sublist s.imports) :
    Sound p { s with rows := rows, imports := imports } where
  apart := hs.apart.sublist ((hrows.map _).append ((himports.map _).map _))
  ready := fun r hr => hs.ready r (hrows.subset hr)
  live := fun r hr => hs.live r (hrows.subset hr)

theorem addRow (hs : Sound p s) (row : ModelRecord)
    (hnew : ∀ h ∈ s.holders, Apart p s.files (rowHolder row) h)
    (hready : row.status = .ready → s.exists? p row.path = true) (hdead : row.id ∉ s.tasks.keys) :
    Sound p { s with rows := s.rows ++ [row] } := by
  refine ⟨?_, ?_, ?_⟩
  · have hperm : (rowHolder row :: s.holders).Perm
        ((s.rows ++ [row]).map rowHolder ++ s.imports.values.map importHolder) := by
      rw [List.map_append, List.append_assoc]
      exact List.perm_middle.symm
    exact hperm.pairwise (List.pairwise_cons.mpr ⟨hnew, hs.apart⟩) fun ha => ha.symm
  · intro r hr hstatus htried
    rcases List.mem_append.mp hr with hr | hr
    · exact hs.ready r hr hstatus htried
    · cases List.mem_singleton.mp hr
      exact hready hstatus
  · intro r hr hmem
    rcases List.mem_append.mp hr with hr | hr
    · exact hs.live r hr hmem
    · cases List.mem_singleton.mp hr
      exact absurd hmem hdead

theorem setStatus (hs : Sound p s) (ho : Owned s) {status : ModelStatus}
    (hready : status = .ready → s.stored p id = true) :
    Sound p ((s.setStatus id status).release id) := by
  have hreleased : Sound p (s.release id) :=
    hs.keep rfl rfl rfl (List.Subset.refl _) fun _ h => (Dict.mem_keys_pop.mp h).1
  refine hreleased.setRows ?_ ?_ ?_ ?_
  · intro r
    split <;> rfl
  · intro r
    split <;> rfl
  · intro r hr hstatus
    by_cases hid : r.id = id
    · rw [if_pos hid] at hstatus
      obtain ⟨row, hrow, hfile⟩ := (Option.any_eq_true _ _).mp (hready hstatus)
      obtain ⟨hmem, hrowid⟩ := mem_of_get? hrow
      have heq : r = row := List.inj_on_of_nodup_map ho.ids hr hmem (hid.trans hrowid.symm)
      exact .inr (heq ▸ hfile)
    · rw [if_neg hid] at hstatus
      exact .inl hstatus
  · intro r hr hmem
    have hne : r.id ≠ id := (Dict.mem_keys_pop.mp hmem).2
    rw [if_neg hne]

theorem record (hs : Sound p s) (ho : Owned s) {status : ModelStatus} (persists : Bool)
    (hready : status = .ready → s.stored p id = true) : Sound p (s.record id status persists) := by
  unfold St.record
  split
  · exact hs.setStatus ho hready
  · exact hs.keep rfl rfl rfl (List.Subset.refl _) fun _ h => (Dict.mem_keys_pop.mp h).1

theorem setPhase (hs : Sound p s) (phase : Phase) (cancelling : Bool) (hlive : id ∈ s.tasks.keys) :
    Sound p (s.setPhase id phase cancelling) :=
  hs.keep rfl rfl rfl (List.Subset.refl _) fun _ h => Dict.keys_set_of_mem hlive
    ⟨phase, cancelling⟩ ▸ h

theorem submit (hs : Sound p s) (probe : Bool) (hlive : id ∈ s.tasks.keys) :
    Sound p (s.submit id probe) :=
  (hs.setPhase (.running probe) false hlive).same rfl rfl rfl rfl rfl

theorem run (hs : Sound p s) (ho : Owned s) {submits persists : Bool}
    (hst : s.run id submits persists = some s') : Sound p s' := by
  unfold St.run at hst
  split at hst
  · rename_i hget
    cases hst
    exact hs.setPhase .done false (Dict.mem_keys_of_mem (Dict.mem_of_get hget))
  · rename_i hget
    cases hst
    split
    · exact hs.submit false (Dict.mem_keys_of_mem (Dict.mem_of_get hget))
    · exact hs.record ho persists fun h => by cases h
  · cases hst

theorem liveRow (hs : Sound p s) {task : Task} {row : ModelRecord}
    (hget : s.tasks.get id = some task) (hrow : s.get? id = some row) :
    row ∈ s.rows ∧ row.status = .downloading ∧ row.sourceType ≠ .importFile := by
  obtain ⟨hmem, hid⟩ := mem_of_get? hrow
  have hlive : row.id ∈ s.tasks.keys := hid ▸ Dict.mem_keys_of_mem (Dict.mem_of_get hget)
  exact ⟨hmem, hs.live row hmem hlive⟩

/-- A download changes its two files. -/
theorem changeDownload (hs : Sound p s) {row : ModelRecord} (hmem : row ∈ s.rows)
    (hstatus : row.status = .downloading) (hsource : row.sourceType ≠ .importFile)
    (hout : ∀ e, e ≠ p.entry row.path → e ≠ p.entry (partPath row.path) →
      files'.get e = s.files.get e) (huses : uses p files' (rowHolder row) ⊆ uses p s.files
      (rowHolder row)) :
    Sound p { s with files := files' } := by
  have hpair := unlinked_of_download hsource (p := p) s.files row.path
  refine hs.change hmem ?_ (frame_managed hpair huses) fun h => ?_
  · intro e he
    rw [hpair, List.mem_cons, List.mem_singleton, not_or] at he
    exact hout e he.1 he.2
  · rw [hstatus] at h
    cases h

theorem touch (hs : Sound p s) {present : Bool} (hst : s.touch p id present = some s') :
    Sound p s' := by
  unfold St.touch at hst
  split at hst
  · rename_i row hget hrow
    obtain ⟨hmem, hstatus, hsource⟩ := hs.liveRow hget hrow
    cases hst
    cases present with
    | true => exact hs.write _
    | false =>
      exact hs.changeDownload hmem hstatus hsource (fun e _ hpart => get_unlink_of_ne hpart)
        (uses_unlink _ _)
  · cases hst

theorem threadReturns (hs : Sound p s) {outcome : Outcome}
    (hst : s.threadReturns p id outcome = some s') :
    Sound p s' := by
  unfold St.threadReturns at hst
  split at hst
  · rename_i cancelling row hget hrow
    obtain ⟨hmem, hstatus, hsource⟩ := hs.liveRow hget hrow
    have hlive := Dict.mem_keys_of_mem (Dict.mem_of_get hget)
    simp only at hst
    split at hst
    · split at hst
      · cases hst
      · rename_i hmay
        rw [not_or] at hmay
        cases hst
        have hrenamed := hs.changeDownload hmem hstatus hsource
          (fun e hpath hpart => get_rename_of_ne hpart hpath) (uses_rename hsource hmay.2)
        exact (hrenamed.setPhase (.returned outcome) cancelling hlive).same rfl rfl rfl rfl rfl
    · cases hst
      exact (hs.setPhase (.returned outcome) cancelling hlive).same rfl rfl rfl rfl rfl
  · rename_i hget
    cases hst
    exact (hs.setPhase _ _ (Dict.mem_keys_of_mem (Dict.mem_of_get hget))).same rfl rfl rfl rfl rfl
  · cases hst

theorem resume (hs : Sound p s) (ho : Owned s) {submits ready persists : Bool}
    (hst : s.resume p id submits ready persists = some s') : Sound p s' := by
  unfold St.resume at hst
  split at hst
  · rename_i hget
    cases hst
    split
    · exact hs.submit true (Dict.mem_keys_of_mem (Dict.mem_of_get hget))
    · exact hs.record ho persists fun h => by cases h
  · cases hst
    exact hs.record ho persists fun h => by cases h
  · cases hst
    exact hs.record ho persists fun h => by cases h
  · cases hst
    split
    · rename_i hstored
      exact hs.record ho true fun _ => hstored.2
    · exact hs.record ho persists fun h => by cases h
  · cases hst

theorem startDownload (hs : Sound p s) (ho : Owned s) {base : String} {sourceType : SourceType}
    (hok : mayAdd p s (.startDownload id base sourceType)) :
    Sound p (s.startDownload p id base sourceType) := by
  unfold St.startDownload
  simp only
  split
  case isFalse => exact hs
  rename_i hmay
  have hdead : id ∉ s.tasks.keys := fun hlive => hmay.2.2.2.2 (ho.listed _ hlive)
  have hrow := hs.addRow ⟨id, p.dest base, sourceType, .downloading⟩ (hok hmay)
      (fun h => by cases h) hdead
  refine ⟨hrow.apart, hrow.ready, ?_⟩
  intro r hr hmem
  rcases List.mem_append.mp hr with hr' | hr'
  · refine hs.live r hr' ?_
    obtain ⟨task, htask⟩ := Dict.mem_of_mem_keys hmem
    rcases Dict.mem_set htask with ⟨heq, -⟩ | ⟨-, htask⟩
    · exact absurd (heq ▸ List.mem_map.mpr ⟨r, hr', rfl⟩) hmay.2.2.2.2
    · exact Dict.mem_keys_of_mem htask
  · cases List.mem_singleton.mp hr'
    exact ⟨rfl, hmay.1⟩

theorem importLocal (hs : Sound p s) (ho : Owned s) {path : String} {valid : Bool}
    (hok : mayAdd p s (.importLocal path valid)) : Sound p (s.importLocal p path valid) := by
  unfold St.importLocal
  simp only
  split
  case isFalse => exact hs
  rename_i hmay
  refine ⟨?_, hs.ready, hs.live⟩
  have hnew : p.key s.files path ∉ s.imports.keys := fun hmem => hmay.1 (ho.imports _ hmem)
  have hholders : s.rows.map rowHolder ++
      (s.imports.set (p.key s.files path) ⟨path, false⟩).values.map importHolder
      = s.holders ++ [(.importFile, path)] := by
    rw [Dict.set_of_not_mem hnew, Dict.values, List.map_append, List.map_append,
      ← List.append_assoc]
    rfl
  have hperm : ((.importFile, path) :: s.holders).Perm (s.holders ++ [(.importFile, path)]) :=
    List.perm_append_singleton _ _ |>.symm
  show (s.rows.map rowHolder ++ (s.imports.set _ _).values.map importHolder).Pairwise _
  rw [hholders]
  exact hperm.pairwise (List.pairwise_cons.mpr ⟨hok hmay, hs.apart⟩) fun ha => ha.symm

theorem hashed (hs : Sound p s) (ho : Owned s) {key : String} (hst : s.hashed key = some s') :
    Sound p s' := by
  unfold St.hashed at hst
  split at hst
  · rename_i path hget
    cases hst
    refine ⟨?_, hs.ready, hs.live⟩
    have hmem := Dict.mem_of_get hget
    have hpaths : (s.imports.set key ⟨path, true⟩).values.map importHolder =
        s.imports.values.map importHolder := by
      rw [Dict.set, if_pos (Dict.mem_keys_of_mem hmem), Dict.values, Dict.values, List.map_map,
        List.map_map, List.map_map]
      refine List.map_congr_left fun e he => ?_
      by_cases hkey : e.1 = key
      · have heq : e.2 = ⟨path, false⟩ := Dict.unique ho.importIds (hkey ▸ he) hmem
        simp [hkey, heq, importHolder]
      · simp [hkey]
    show (s.rows.map rowHolder ++ (s.imports.set key _).values.map importHolder).Pairwise _
    rw [hpaths]
    exact hs.apart
  · cases hst

theorem endImport (hs : Sound p s) (key : String) : Sound p (s.endImport key) :=
  (hs.drop (List.Sublist.refl _) (List.filter_sublist (l := s.imports))).same rfl rfl rfl rfl rfl

theorem imported (hs : Sound p s) (ho : Owned s) {key : String} {stored : Bool}
    (hst : s.imported p key id stored = some s') : Sound p s' := by
  unfold St.imported at hst
  split at hst
  case h_2 => cases hst
  rename_i path hget
  cases hst
  split
  case isFalse => exact hs.endImport key
  rename_i hstored
  unfold St.create
  split
  · exact hs.endImport key
  · rename_i hnew
    have hmem : (⟨path, true⟩ : Import) ∈ s.imports.values :=
      List.mem_map.mpr ⟨_, Dict.mem_of_get hget, rfl⟩
    have hended := hs.endImport key
    have hdead : id ∉ s.tasks.keys := fun hlive => hnew (ho.listed _ hlive)
    refine hended.addRow ⟨id, path, .importFile, .ready⟩ ?_ (fun _ => hstored.2) hdead
    intro h hh
    rcases List.mem_append.mp hh with hh | hh
    · obtain ⟨r, hr, rfl⟩ := List.mem_map.mp hh
      exact (hs.apart_import hr hmem).symm
    · -- the import and the others that are running
      obtain ⟨i, hi, rfl⟩ := List.mem_map.mp hh
      obtain ⟨⟨key', i'⟩, he, rfl⟩ := List.mem_map.mp hi
      obtain ⟨he, hne⟩ := Dict.mem_pop.mp he
      refine hs.apart_imports (Dict.mem_of_get hget) he fun heq => hne ?_
      exact (Prod.mk.inj heq).1.symm

theorem importCancelled (hs : Sound p s) {key : String} (hst : s.importCancelled key = some s') :
    Sound p s' := by
  unfold St.importCancelled at hst
  split at hst
  · cases hst
    exact hs.endImport key
  · cases hst
    exact (hs.endImport key).same rfl rfl rfl rfl rfl
  · cases hst

theorem get_unlinkAll {e : String} (entries : List String) (he : e ∉ entries)
    (files : FileTree String) : (entries.foldl FileTree.unlink files).get e = files.get e := by
  induction entries generalizing files with
  | nil => rfl
  | cons e' entries ih =>
    rw [List.mem_cons, not_or] at he
    exact (ih he.2 _).trans (get_unlink_of_ne he.1)

theorem uses_unlinkAll (entries : List String) (files : FileTree String) (h : Holder) :
    uses p (entries.foldl FileTree.unlink files) h ⊆ uses p files h := by
  induction entries generalizing files with
  | nil => exact List.Subset.refl _
  | cons e entries ih => exact List.Subset.trans (ih _) (uses_unlink e h)

theorem unlinkAll (hs : Sound p s) {row : ModelRecord} (hmem : row ∈ s.rows)
    (htried : row.id ∈ s.tried) {entries : List String}
      (hentries : entries ⊆ p.unlinked s.files row.sourceType row.path) :
    Sound p (entries.foldl St.unlink s) := by
  rw [St.unlinkAll_eq]
  refine hs.change hmem (fun e he => get_unlinkAll entries
    (fun h => he (hentries h)) _) ?_ fun _ => htried
  by_cases hmanaged : row.sourceType ≠ .importFile ∨ p.within (p.key s.files row.path) = true
  · exact frame_managed (h := rowHolder row) (if_pos hmanaged) (uses_unlinkAll entries _ _)
  · have hnone : p.unlinked s.files row.sourceType row.path = [] := if_neg hmanaged
    rw [hnone, List.subset_nil] at hentries
    subst hentries
    exact frame_congr fun _ _ => rfl

theorem deleteModel (hs : Sound p s) {row : ModelRecord} (hmem : row ∈ s.rows) (reach : Reach) :
    Sound p (s.deleteModel p row reach) := by
  have htried : Sound p { s with tried := row.id :: s.tried } :=
    hs.keep rfl rfl rfl (List.subset_cons_self _ _) fun _ h => h
  have hid : row.id ∈ row.id :: s.tried := List.mem_cons_self ..
  cases reach with
  | nothing => exact htried
  | file => exact htried.unlinkAll hmem hid (List.take_subset _ _)
  | files => exact htried.unlinkAll hmem hid (List.Subset.refl _)
  | row =>
    refine (htried.unlinkAll hmem hid (List.Subset.refl _)).drop ?_ (List.Sublist.refl _)
    rw [St.unlinkAll_eq]
    exact List.filter_sublist

theorem delete (hs : Sound p s) (id : String) (reach : Reach) : Sound p (s.delete p id reach) := by
  unfold St.delete
  split
  · rename_i hget
    split
    · exact hs
    · exact hs.deleteModel (mem_of_get? hget).1 reach
  · exact hs

theorem registerConfigured (hs : Sound p s) (ho : Owned s) {path : String}
    (hok : mayAdd p s (.registerConfigured path id)) :
    Sound p (s.registerConfigured p path id) := by
  unfold St.registerConfigured
  split
  · rename_i hmay
    have hdead : id ∉ s.tasks.keys := fun hlive => hmay.2.2 (ho.listed _ hlive)
    exact hs.addRow _ (hok hmay) (fun _ => hmay.1) hdead
  · exact hs

theorem reconcile (hs : Sound p s) : Sound p s.reconcile := by
  refine hs.setRows ?_ ?_ ?_ ?_
  · intro r
    split <;> rfl
  · intro r
    split <;> rfl
  · intro r hr hstatus
    split at hstatus
    · cases hstatus
    · exact .inl hstatus
  · intro r hr hlive
    rw [if_neg fun h => h.2 hlive]

theorem restart (hs : Sound p s) : Sound p s.restart := by
  have hdropped := hs.drop (List.Sublist.refl s.rows) (List.nil_sublist s.imports)
  exact ⟨hdropped.apart, hdropped.ready, fun _ _ hlive => absurd hlive List.not_mem_nil⟩

theorem setCancel (hs : Sound p s) (id : String) : Sound p (s.setCancel id) := by
  unfold St.setCancel
  split
  · exact hs
  · exact hs
  · exact hs
  · split
    · exact hs.same rfl rfl rfl rfl rfl
    · exact hs

theorem release (hs : Sound p s) (id : String) : Sound p (s.release id) :=
  hs.keep rfl rfl rfl (List.Subset.refl _) fun _ h => (Dict.mem_keys_pop.mp h).1

theorem shutdownTurn (hs : Sound p s) : Sound p s.shutdownTurn := by
  unfold St.shutdownTurn
  split
  · exact hs
  · have hset : ∀ (ids : List String) (s : St), Sound p s → Sound p (ids.foldl St.setCancel s) := by
      intro ids
      induction ids with
      | nil => exact fun _ hs => hs
      | cons id ids ih => exact fun s hs => ih _ (hs.setCancel id)
    exact (hset s.cancels.keys s hs).same rfl rfl rfl rfl rfl

theorem wake (hs : Sound p s) (hst : s.wake = some s') : Sound p s' := by
  unfold St.wake at hst
  split at hst
  · cases hst
    have hrelease : ∀ (es : List (String × Task)) (s : St), Sound p s →
        Sound p (es.foldl (fun s e => s.release e.1) s) := by
      intro es
      induction es with
      | nil => exact fun _ hs => hs
      | cons e es ih => exact fun s hs => ih _ (hs.release e.1)
    have hwaiting : Sound p { s with shutdowns := s.shutdowns - 1 } :=
      hs.same rfl rfl rfl rfl rfl
    exact (hrelease _ _ hwaiting).shutdownTurn
  · cases hst

theorem step {l : Label} (hs : Sound p s) (ho : Owned s) (hok : mayAdd p s l)
    (hst : step p s l = some s') :
    Sound p s' := by
  cases l with
  | startDownload id base sourceType => cases hst; exact hs.startDownload ho hok
  | run id submits persists => exact hs.run ho hst
  | touch id present => exact hs.touch hst
  | threadReturns id outcome => exact hs.threadReturns hst
  | resume id submits ready persists => exact hs.resume ho hst
  | cancel id => cases hst; exact hs.setCancel id
  | cancelTask id =>
    simp only [ModelService.step, St.cancelTask] at hst
    split at hst
    · cases hst
    · cases hst
    · rename_i hget
      cases hst
      exact hs.setPhase _ true (Dict.mem_keys_of_mem (Dict.mem_of_get hget))
  | deliver id =>
    simp only [ModelService.step, St.deliver] at hst
    split at hst
    · cases hst
    · cases hst
    · cases hst
    · cases hst
    · rename_i hget
      cases hst
      exact (hs.setPhase _ false (Dict.mem_keys_of_mem (Dict.mem_of_get hget))).setCancel id
  | importLocal path valid => cases hst; exact hs.importLocal ho hok
  | hashed key => exact hs.hashed ho hst
  | imported key id stored => exact hs.imported ho hst
  | importCancelled key => exact hs.importCancelled hst
  | orphanReturns path =>
    simp only [ModelService.step] at hst
    split at hst
    · cases hst; exact hs.same rfl rfl rfl rfl rfl
    · cases hst
  | beginOperation id =>
    cases hst
    unfold St.beginOperation
    split
    · split
      · exact hs
      · exact hs.same rfl rfl rfl rfl rfl
    · exact hs
  | endOperation id => cases hst; exact hs.same rfl rfl rfl rfl rfl
  | delete id reach => cases hst; exact hs.delete id reach
  | registerConfigured path id => cases hst; exact hs.registerConfigured ho hok
  | restart => cases hst; exact hs.restart
  | reconcile => cases hst; exact hs.reconcile
  | shutdown => cases hst; exact hs.shutdownTurn
  | wake => exact hs.wake hst
  | shutdownCancelled =>
    simp only [ModelService.step] at hst
    split at hst
    · cases hst; exact hs.same rfl rfl rfl rfl rfl
    · cases hst

theorem run_guarded {ls : List Label} (hrun : Run (ModelService.step p) (.init [] files) ls s)
    (hok : Guarded (ModelService.step p) (mayAdd p) (.init [] files) ls) : Sound p s := by
  have hboth : Owned s ∧ Sound p s := by
    refine hrun.invariant_of_guarded (P := fun s => Owned s ∧ Sound p s) ?_ hok ?_
    · exact fun s l s' hs hok hst => ⟨hs.1.step hst, hs.2.step hs.1 hok hst⟩
    · exact ⟨.init [] files List.nodup_nil, .init p files⟩
  exact hboth.2

end Sound

/-- A delete changes nothing that another holder uses. -/
theorem delete_get {row : ModelRecord} (hget : s.get? id = some row) (reach : Reach) {h : Holder}
    (hspares : Apart p s.files (rowHolder row) h) {e : String} (he : e ∈ uses p s.files h) :
    (s.delete p id reach).files.get e = s.files.get e := by
  have hout : e ∉ p.unlinked s.files row.sourceType row.path := fun hmem => hspares.1 e hmem he
  unfold St.delete
  rw [hget]
  simp only
  split
  · rfl
  · unfold St.deleteModel
    cases reach with
    | nothing => rfl
    | file =>
      simp only [St.unlinkAll_eq]
      exact Sound.get_unlinkAll _ (fun hmem => hout (List.take_subset _ _ hmem)) _
    | files =>
      simp only [St.unlinkAll_eq]
      exact Sound.get_unlinkAll _ hout _
    | row =>
      simp only [St.unlinkAll_eq]
      exact Sound.get_unlinkAll _ hout _

theorem delete_row (hs : Sound p s) (id : String) (reach : Reach) {r : ModelRecord}
    (hr : r ∈ s.rows) (hne : r.id ≠ id) {e : String} (he : e ∈ uses p s.files (rowHolder r)) :
    (s.delete p id reach).files.get e = s.files.get e := by
  cases hget : s.get? id with
  | none => rw [St.delete, hget]
  | some row =>
    obtain ⟨hmem, hid⟩ := mem_of_get? hget
    have hdiff : row ≠ r := fun heq => hne (heq ▸ hid)
    exact delete_get hget reach (hs.apart_rows hmem hr hdiff) he

theorem delete_import (hs : Sound p s) (id : String) (reach : Reach) {i : Import}
    (hi : i ∈ s.imports.values) {e : String} (he : e ∈ uses p s.files (importHolder i)) :
    (s.delete p id reach).files.get e = s.files.get e := by
  cases hget : s.get? id with
  | none => rw [St.delete, hget]
  | some row => exact delete_get hget reach (hs.apart_import (mem_of_get? hget).1 hi) he

/-- In a run in which every new model is apart from the others, a delete changes no entry that
another model or an import uses, and every ready model whose own deletion was not tried has its
file. -/
theorem delete_spares_others {ls : List Label} (hrun : Run (step p) (.init [] files) ls s)
    (hok : Guarded (step p) (mayAdd p) (.init [] files) ls) :
    (∀ id reach, (∀ r ∈ s.rows, r.id ≠ id → ∀ e ∈ uses p s.files (rowHolder r),
          (s.delete p id reach).files.get e = s.files.get e) ∧
        ∀ i ∈ s.imports.values, ∀ e ∈ uses p s.files (importHolder i),
          (s.delete p id reach).files.get e = s.files.get e) ∧
      ∀ r ∈ s.rows, r.status = .ready → r.id ∉ s.tried → s.exists? p r.path = true := by
  have hs := Sound.run_guarded hrun hok
  refine ⟨fun id reach => ⟨?_, ?_⟩, hs.ready⟩
  · exact fun r hr hne e he => delete_row hs id reach hr hne he
  · exact fun i hi e he => delete_import hs id reach hi he

section Example

/-- One file is imported, another one is downloaded, and the first is deleted. -/
def keptApart : List Label :=
  [.importLocal "models/a.gguf" true, .hashed "models/a.gguf", .imported "models/a.gguf" "a" true,
    .startDownload "b" "b.gguf" .url, .run "b" true true, .touch "b" true,
      .threadReturns "b" .promoted,
    .resume "b" true true true, .threadReturns "b" .promoted, .resume "b" true true true,
      .delete "a" .row]

theorem delete_spares_others_keptApart :
    ∃ s, Run (step plainPaths) (.init [] [("models/a.gguf", .file)]) keptApart s ∧
      s.rows = [⟨"b", "models/b.gguf", .url, .ready⟩] ∧ ∀ r ∈ s.rows,
      s.exists? plainPaths r.path = true := by
  obtain ⟨s, hrun, hs⟩ : ∃ s,
      Run (step plainPaths) (.init [] [("models/a.gguf", .file)]) keptApart s ∧
      (s.rows, s.tried) = ([⟨"b", "models/b.gguf", .url, .ready⟩], ["a"]) := run_of_exec_map rfl
  obtain ⟨hrows, htried⟩ := Prod.mk.inj hs
  have hok : Guarded (step plainPaths) (mayAdd plainPaths)
      (.init [] [("models/a.gguf", .file)]) keptApart := by
    decide
  refine ⟨s, hrun, hrows, fun r hr => (delete_spares_others hrun hok).2 r hr ?_ ?_⟩
  · rw [hrows] at hr
    rw [List.mem_singleton.mp hr]
  · rw [hrows] at hr
    rw [List.mem_singleton.mp hr, htried]
    decide

/-- One file is imported twice. -/
def twiceImported : List Label :=
  [.importLocal "models/a.gguf" true, .hashed "models/a.gguf", .imported "models/a.gguf" "a" true,
    .importLocal "models/a.gguf" true, .hashed "models/a.gguf", .imported "models/a.gguf" "b" true]

/-- Deleting the one unlinks the file of the other, which is ready and stays so. -/
theorem shared_file_unlinked :
    ¬ ∀ (p : Paths) (files : FileTree String) (ls : List Label) (s : St),
      Run (step p) (.init [] files) ls s →
        (∀ id reach, ∀ r ∈ s.rows, r.id ≠ id → ∀ e ∈ uses p s.files (rowHolder r),
          (s.delete p id reach).files.get e = s.files.get e) ∧
        ∀ r ∈ s.rows, r.status = .ready → r.id ∉ s.tried → s.exists? p r.path = true := by
  intro h
  obtain ⟨s, hrun, hs⟩ : ∃ s, Run (step plainPaths) (.init [] [("models/a.gguf", .file)])
      (twiceImported ++ [.delete "a" .row]) s ∧
        (s.rows, s.tried, s.exists? plainPaths "models/a.gguf") =
        ([⟨"b", "models/a.gguf", .importFile, .ready⟩], ["a"], false) := run_of_exec_map rfl
  obtain ⟨hrows, hs⟩ := Prod.mk.inj hs
  obtain ⟨htried, hgone⟩ := Prod.mk.inj hs
  have hfile := (h plainPaths _ _ s hrun).2 ⟨"b", "models/a.gguf", .importFile, .ready⟩
    (hrows ▸ List.mem_singleton_self _) rfl (by rw [htried]; decide)
  rw [hgone] at hfile
  cases hfile

end Example

end ModelService

end InferenceEngine
