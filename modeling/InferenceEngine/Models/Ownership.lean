import InferenceEngine.Models.Service

/-!
# Models.Ownership

Who owns what. `Owned` relates the tables to each other, to the rows and to the threads; every step
of the service keeps it (`Owned.step`). A call of `shutdown` returns when `_tasks` is empty, and
then no download is left (`nothing_owned`); an import is not waited for.
-/

namespace InferenceEngine
namespace ModelService

open Lts

variable {p : Paths} {s s' : St} {id : String}

structure Owned (s : St) : Prop where
  cancels : s.cancels.keys = s.tasks.keys
  paths : s.downloadPaths.keys = s.tasks.keys
  nodup : s.tasks.keys.Nodup
  ids : (s.rows.map (·.id)).Nodup
  listed : ∀ id ∈ s.tasks.keys, id ∈ s.rows.map (·.id)
  /-- two downloads have two destinations -/
  distinct : ∀ r ∈ s.rows, ∀ r' ∈ s.rows, r.id ∈ s.tasks.keys → r'.id ∈ s.tasks.keys →
    r.path = r'.path →
    r.id = r'.id
  /-- no import of a file that is being downloaded -/
  apart : ∀ key ∈ s.importPaths, key ∉ s.downloadPaths.values
  imports : ∀ key ∈ s.imports.keys, key ∈ s.importPaths
  importIds : s.imports.keys.Nodup
  threads : ∀ id ∈ s.threads, ∃ probe cancelling, s.tasks.get id = some ⟨.running probe, cancelling⟩

namespace Owned

theorem init (rows : List ModelRecord) (files : FileTree String) (h : (rows.map (·.id)).Nodup) :
    Owned (St.init rows files) where
  cancels := rfl
  paths := rfl
  nodup := List.nodup_nil
  ids := h
  listed := fun _ hid => absurd hid List.not_mem_nil
  distinct := fun _ _ _ _ hlive => absurd hlive List.not_mem_nil
  apart := fun _ hkey => absurd hkey List.not_mem_nil
  imports := fun _ hkey => absurd hkey List.not_mem_nil
  importIds := List.nodup_nil
  threads := fun _ hid => absurd hid List.not_mem_nil

theorem thread_live (h : Owned s) (hid : id ∈ s.threads) : id ∈ s.tasks.keys := by
  obtain ⟨probe, cancelling, hget⟩ := h.threads id hid
  exact Dict.mem_keys_of_mem (Dict.mem_of_get hget)

theorem no_thread (h : Owned s) {task : Task} (hget : s.tasks.get id = some task)
    (hphase : task.phase.isRunning = false) : id ∉ s.threads := by
  intro hid
  obtain ⟨probe, cancelling, hrunning⟩ := h.threads id hid
  rw [hget] at hrunning
  cases hrunning
  cases hphase

theorem setRows (h : Owned s) {f : ModelRecord → ModelRecord} (hid : ∀ r, (f r).id = r.id)
    (hpath : ∀ r, (f r).path = r.path) : Owned { s with rows := s.rows.map f } := by
  have hids : (s.rows.map f).map (·.id) = s.rows.map (·.id) := by
    rw [List.map_map]
    exact List.map_congr_left fun r _ => hid r
  refine { h with ids := ?_, listed := ?_, distinct := ?_ }
  · rw [hids]
    exact h.ids
  · rw [hids]
    exact h.listed
  · intro r hr r' hr' hlive hlive' heq
    obtain ⟨r₀, hr₀, rfl⟩ := List.mem_map.mp hr
    obtain ⟨r₁, hr₁, rfl⟩ := List.mem_map.mp hr'
    rw [hid] at hlive hlive' ⊢
    rw [hid]
    rw [hpath, hpath] at heq
    exact h.distinct r₀ hr₀ r₁ hr₁ hlive hlive' heq

theorem setStatus (h : Owned s) (id : String) (status : ModelStatus) :
    Owned (s.setStatus id status) := by
  refine h.setRows ?_ ?_
  · intro r
    split <;> rfl
  · intro r
    split <;> rfl

theorem reconcile (h : Owned s) : Owned s.reconcile := by
  refine h.setRows ?_ ?_
  · intro r
    split <;> rfl
  · intro r
    split <;> rfl

theorem setPhase (h : Owned s) {phase : Phase} {cancelling : Bool} (hlive : id ∈ s.tasks.keys)
    (hthread : id ∈ s.threads → phase.isRunning) : Owned (s.setPhase id phase cancelling) := by
  have hkeys : (s.setPhase id phase cancelling).tasks.keys = s.tasks.keys :=
    Dict.keys_set_of_mem hlive _
  refine ⟨h.cancels.trans hkeys.symm, h.paths.trans hkeys.symm, ?_, h.ids, ?_, ?_, h.apart,
    h.imports, h.importIds, ?_⟩
  · rw [hkeys]
    exact h.nodup
  · rw [hkeys]
    exact h.listed
  · rw [hkeys]
    exact h.distinct
  · intro id' hid'
    rw [St.setPhase, Dict.get_set]
    by_cases heq : id' = id
    · subst heq
      have hrunning := hthread hid'
      cases phase with
      | running probe => exact ⟨probe, cancelling, if_pos rfl⟩
      | _ => cases hrunning
    · rw [if_neg heq]
      exact h.threads id' hid'

theorem setCancel (h : Owned s) (id : String) : Owned (s.setCancel id) := by
  unfold St.setCancel
  split
  · exact h
  · exact h
  · exact h
  · split
    · rename_i hmem
      exact { h with cancels := (Dict.keys_set_of_mem hmem true).trans h.cancels }
    · exact h

theorem release (h : Owned s) (hid : id ∉ s.threads) : Owned (s.release id) := by
  have hsub : ∀ id', id' ∈ (s.tasks.pop id).keys → id' ∈ s.tasks.keys := fun id' h' =>
    (Dict.mem_keys_pop.mp h').1
  refine ⟨?_, ?_, ?_, h.ids, ?_, ?_, ?_, h.imports, h.importIds, ?_⟩
  · show (s.cancels.pop id).keys = (s.tasks.pop id).keys
    rw [Dict.keys_pop, Dict.keys_pop, h.cancels]
  · show (s.downloadPaths.pop id).keys = (s.tasks.pop id).keys
    rw [Dict.keys_pop, Dict.keys_pop, h.paths]
  · show (s.tasks.pop id).keys.Nodup
    rw [Dict.keys_pop]
    exact h.nodup.filter _
  · exact fun id' h' => h.listed id' (hsub id' h')
  · exact fun r hr r' hr' hl hl' => h.distinct r hr r' hr' (hsub _ hl) (hsub _ hl')
  · intro key hkey hmem
    obtain ⟨⟨id', key'⟩, he, rfl⟩ := List.mem_map.mp hmem
    exact h.apart _ hkey (List.mem_map.mpr ⟨_, (Dict.mem_pop.mp he).1, rfl⟩)
  · intro id' hid'
    have hne : id' ≠ id := fun heq => hid (heq ▸ hid')
    show ∃ probe cancelling, (s.tasks.pop id).get id' = some ⟨.running probe, cancelling⟩
    rw [Dict.get_pop, if_neg hne]
    exact h.threads id' hid'

theorem addRow (h : Owned s) (row : ModelRecord) (hnew : row.id ∉ s.rows.map (·.id)) :
    Owned { s with rows := s.rows ++ [row] } := by
  have hdead : row.id ∉ s.tasks.keys := fun hlive => hnew (h.listed _ hlive)
  refine { h with ids := ?_, listed := ?_, distinct := ?_ }
  · rw [List.map_append]
    exact List.nodup_append'.mpr ⟨h.ids, List.nodup_singleton _, List.disjoint_singleton.mpr hnew⟩
  · intro id hid
    rw [List.map_append]
    exact List.mem_append_left _ (h.listed id hid)
  · intro r hr r' hr' hlive hlive' heq
    have hold : ∀ r ∈ s.rows ++ [row], r.id ∈ s.tasks.keys → r ∈ s.rows := by
      intro r hr hlive
      rcases List.mem_append.mp hr with hr | hr
      · exact hr
      · exact absurd (List.mem_singleton.mp hr ▸ hlive) hdead
    exact h.distinct r (hold r hr hlive) r' (hold r' hr' hlive') hlive hlive' heq

theorem create (h : Owned s) (row : ModelRecord) : Owned (s.create row) := by
  unfold St.create
  split
  · exact h
  · exact h.addRow _ ‹_›

theorem startDownload (h : Owned s) (base : String) (sourceType : SourceType) :
    Owned (s.startDownload p id base sourceType) := by
  unfold St.startDownload
  simp only
  split
  case isFalse => exact h
  rename_i hmay
  obtain ⟨-, himport, -, hpath, hnew⟩ := hmay
  have hdead : id ∉ s.tasks.keys := fun hlive => hnew (h.listed _ hlive)
  have htasks : ∀ id', id' ∈ (s.tasks.set id ⟨.created, false⟩).keys ↔
      id' ∈ s.tasks.keys ∨ id' = id := by
    intro id'
    rw [Dict.keys_set hdead, List.mem_append, List.mem_singleton]
  have hrow := h.addRow ⟨id, p.dest base, sourceType, .downloading⟩ hnew
  refine ⟨?_, ?_, ?_, hrow.ids, ?_, ?_, ?_, h.imports, h.importIds, ?_⟩
  · show (s.cancels.set id false).keys = (s.tasks.set id _).keys
    rw [Dict.keys_set hdead, Dict.keys_set (h.cancels ▸ hdead), h.cancels]
  · show (s.downloadPaths.set id _).keys = (s.tasks.set id _).keys
    rw [Dict.keys_set hdead, Dict.keys_set (h.paths ▸ hdead), h.paths]
  · show (s.tasks.set id _).keys.Nodup
    rw [Dict.keys_set hdead]
    exact List.nodup_append'.mpr ⟨h.nodup, List.nodup_singleton _,
      List.disjoint_singleton.mpr hdead⟩
  · intro id' hid'
    rcases (htasks id').mp hid' with hid' | rfl
    · exact hrow.listed id' hid'
    · exact List.mem_map.mpr ⟨_, List.mem_append_right _ (List.mem_singleton_self _), rfl⟩
  · -- the destination is the path of no row
    have hold : ∀ r ∈ s.rows, r.path ≠ p.dest base := fun r hr heq =>
      hpath (heq ▸ List.mem_map.mpr ⟨r, hr, rfl⟩)
    have hlive : ∀ r ∈ s.rows, r.id ∈ (s.tasks.set id ⟨.created, false⟩).keys →
        r.id ∈ s.tasks.keys := by
      intro r hr hr'
      rcases (htasks r.id).mp hr' with hr' | heq
      · exact hr'
      · exact absurd (heq ▸ List.mem_map.mpr ⟨r, hr, rfl⟩) hnew
    intro r hr r' hr' hl hl' heq
    rcases List.mem_append.mp hr with hr | hr
    · rcases List.mem_append.mp hr' with hr' | hr'
      · exact h.distinct r hr r' hr' (hlive r hr hl) (hlive r' hr' hl') heq
      · rw [List.mem_singleton.mp hr'] at heq
        exact absurd heq (hold r hr)
    · rcases List.mem_append.mp hr' with hr' | hr'
      · rw [List.mem_singleton.mp hr] at heq
        exact absurd heq.symm (hold r' hr')
      · rw [List.mem_singleton.mp hr, List.mem_singleton.mp hr']
  · intro key hkey hmem
    obtain ⟨⟨id', key'⟩, he, rfl⟩ := List.mem_map.mp hmem
    rcases Dict.mem_set he with ⟨-, heq⟩ | ⟨-, he⟩
    · exact himport (heq ▸ hkey)
    · exact h.apart _ hkey (List.mem_map.mpr ⟨_, he, rfl⟩)
  · intro id' hid'
    have hne : id' ≠ id := fun heq => hdead (heq ▸ h.thread_live hid')
    show ∃ probe cancelling, (s.tasks.set id _).get id' = some ⟨.running probe, cancelling⟩
    rw [Dict.get_set, if_neg hne]
    exact h.threads id' hid'

theorem submit (h : Owned s) (probe : Bool) (hlive : id ∈ s.tasks.keys) :
    Owned (s.submit id probe) := by
  have hphase : Owned (s.setPhase id (.running probe) false) := h.setPhase hlive fun _ => rfl
  refine { hphase with threads := ?_ }
  intro id' hid'
  rcases List.mem_cons.mp hid' with rfl | hid'
  · exact ⟨probe, false, (Dict.get_set ..).trans (if_pos rfl)⟩
  · exact hphase.threads id' hid'

theorem record (h : Owned s) (status : ModelStatus) (persists : Bool) (hid : id ∉ s.threads) :
    Owned (s.record id status persists) := by
  unfold St.record
  split
  · exact (h.setStatus id status).release hid
  · exact h.release hid

theorem threadEnds (h : Owned s) (phase : Phase) (cancelling : Bool) (hlive : id ∈ s.tasks.keys) :
    Owned { s.setPhase id phase cancelling with threads := s.threads.filter (· ≠ id) } := by
  have hgone : Owned { s with threads := s.threads.filter (· ≠ id) } :=
    { h with threads := fun id' hid' => h.threads id' (List.mem_filter.mp hid').1 }
  refine hgone.setPhase hlive fun hid => ?_
  have hne := (List.mem_filter.mp hid).2
  exact absurd rfl (of_decide_eq_true hne)

theorem setFiles (h : Owned s) (files : FileTree String) :
    Owned { s with files := files } := { h with }

theorem run (h : Owned s) {submits persists : Bool} (hst : s.run id submits persists = some s') :
    Owned s' := by
  unfold St.run at hst
  split at hst
  · rename_i hget
    cases hst
    exact h.setPhase (Dict.mem_keys_of_mem (Dict.mem_of_get hget)) fun hid =>
      absurd hid (h.no_thread hget rfl)
  · rename_i hget
    cases hst
    split
    · exact h.submit false (Dict.mem_keys_of_mem (Dict.mem_of_get hget))
    · exact h.record .error persists (h.no_thread hget rfl)
  · cases hst

theorem touch (h : Owned s) {present : Bool} (hst : s.touch p id present = some s') : Owned s' := by
  unfold St.touch at hst
  split at hst
  · cases hst
    exact h.setFiles _
  · cases hst

theorem threadReturns (h : Owned s) {outcome : Outcome}
    (hst : s.threadReturns p id outcome = some s') :
    Owned s' := by
  unfold St.threadReturns at hst
  split at hst
  · rename_i hget hrow
    have hended := h.threadEnds (.returned outcome) ‹Bool›
        (Dict.mem_keys_of_mem (Dict.mem_of_get hget))
    simp only at hst
    split at hst
    · split at hst
      · cases hst
      · cases hst
        exact hended.setFiles _
    · cases hst
      exact hended
  · rename_i hget
    cases hst
    exact h.threadEnds _ _ (Dict.mem_keys_of_mem (Dict.mem_of_get hget))
  · cases hst

theorem resume (h : Owned s) {submits ready persists : Bool}
    (hst : s.resume p id submits ready persists = some s') : Owned s' := by
  unfold St.resume at hst
  split at hst
  · rename_i hget
    cases hst
    split
    · exact h.submit true (Dict.mem_keys_of_mem (Dict.mem_of_get hget))
    · exact h.record .error persists (h.no_thread hget rfl)
  · rename_i hget
    cases hst
    exact h.record .cancelled persists (h.no_thread hget rfl)
  · rename_i hget
    cases hst
    exact h.record .error persists (h.no_thread hget rfl)
  · rename_i hget
    cases hst
    split
    · exact h.record .ready true (h.no_thread hget rfl)
    · exact h.record .error persists (h.no_thread hget rfl)
  · cases hst

theorem samePhase (h : Owned s) {task : Task} (hget : s.tasks.get id = some task)
    (cancelling : Bool) :
    Owned (s.setPhase id task.phase cancelling) := by
  refine h.setPhase (Dict.mem_keys_of_mem (Dict.mem_of_get hget)) fun hid => ?_
  obtain ⟨probe, cancelling', hrunning⟩ := h.threads id hid
  rw [hget] at hrunning
  cases hrunning
  rfl

theorem cancelTask (h : Owned s) (hst : s.cancelTask id = some s') : Owned s' := by
  unfold St.cancelTask at hst
  split at hst
  · cases hst
  · cases hst
  · rename_i hget
    cases hst
    exact h.samePhase hget true

theorem deliver (h : Owned s) (hst : s.deliver id = some s') : Owned s' := by
  unfold St.deliver at hst
  split at hst
  · cases hst
  · cases hst
  · cases hst
  · cases hst
  · rename_i hget
    cases hst
    exact (h.samePhase hget false).setCancel id

theorem importLocal (h : Owned s) (path : String) (valid : Bool) :
    Owned (s.importLocal p path valid) := by
  unfold St.importLocal
  simp only
  split
  case isFalse => exact h
  rename_i hmay
  obtain ⟨hfree, hidle, -, -⟩ := hmay
  refine { h with apart := ?_, imports := ?_, importIds := ?_ }
  · intro key hkey
    rcases List.mem_cons.mp hkey with rfl | hkey
    · exact hidle
    · exact h.apart key hkey
  · intro key hkey
    obtain ⟨i, hi⟩ := Dict.mem_of_mem_keys hkey
    rcases Dict.mem_set hi with ⟨heq, -⟩ | ⟨-, hi⟩
    · exact List.mem_cons.mpr (.inl heq)
    · exact List.mem_cons_of_mem _ (h.imports key (Dict.mem_keys_of_mem hi))
  · have hnew : p.key s.files path ∉ s.imports.keys := fun hmem => hfree (h.imports _ hmem)
    show (s.imports.set _ _).keys.Nodup
    rw [Dict.keys_set hnew]
    exact List.nodup_append'.mpr ⟨h.importIds, List.nodup_singleton _,
      List.disjoint_singleton.mpr hnew⟩

theorem endImport (h : Owned s) (key : String) : Owned (s.endImport key) := by
  refine { h with apart := ?_, imports := ?_, importIds := ?_ }
  · exact fun key' hkey' => h.apart key' (List.mem_filter.mp hkey').1
  · intro key' hkey'
    obtain ⟨hmem, hne⟩ := Dict.mem_keys_pop.mp hkey'
    exact List.mem_filter.mpr ⟨h.imports key' hmem, decide_eq_true hne⟩
  · show (s.imports.pop key).keys.Nodup
    rw [Dict.keys_pop]
    exact h.importIds.filter _

theorem hashed (h : Owned s) {key : String} (hst : s.hashed key = some s') : Owned s' := by
  unfold St.hashed at hst
  split at hst
  · rename_i hget
    cases hst
    have hkeys := Dict.keys_set_of_mem (Dict.mem_keys_of_mem (Dict.mem_of_get hget))
        ⟨‹String›, true⟩
    refine { h with imports := ?_, importIds := ?_ }
    · rw [hkeys]
      exact h.imports
    · rw [hkeys]
      exact h.importIds
  · cases hst

theorem imported (h : Owned s) {key : String} {stored : Bool}
    (hst : s.imported p key id stored = some s') :
    Owned s' := by
  unfold St.imported at hst
  split at hst
  · cases hst
    split
    · exact (h.create _).endImport key
    · exact h.endImport key
  · cases hst

theorem importCancelled (h : Owned s) {key : String} (hst : s.importCancelled key = some s') :
    Owned s' := by
  unfold St.importCancelled at hst
  split at hst
  · cases hst
    exact h.endImport key
  · cases hst
    exact { h.endImport key with }
  · cases hst

theorem beginOperation (h : Owned s) (id : String) : Owned (s.beginOperation p id) := by
  unfold St.beginOperation
  split
  · split
    · exact h
    · exact { h with }
  · exact h

theorem registerConfigured (h : Owned s) (path id : String) :
    Owned (s.registerConfigured p path id) := by
  unfold St.registerConfigured
  split
  · rename_i hmay
    exact h.addRow _ hmay.2.2
  · exact h

theorem restart (h : Owned s) : Owned s.restart := { init s.rows s.files h.ids with }

theorem unlinkAll (h : Owned s) (files : List String) : Owned (files.foldl St.unlink s) := by
  rw [St.unlinkAll_eq]
  exact h.setFiles _

theorem removeRow (h : Owned s) (hid : id ∉ s.tasks.keys) :
    Owned { s with rows := s.rows.filter (·.id ≠ id) } := by
  refine { h with ids := ?_, listed := ?_, distinct := ?_ }
  · exact h.ids.sublist (List.filter_sublist.map _)
  · intro id' hid'
    obtain ⟨r, hr, rfl⟩ := List.mem_map.mp (h.listed id' hid')
    have hne : r.id ≠ id := fun heq => hid (heq ▸ hid')
    exact List.mem_map.mpr ⟨r, List.mem_filter.mpr ⟨hr, decide_eq_true hne⟩, rfl⟩
  · exact fun r hr r' hr' => h.distinct r (List.mem_filter.mp hr).1 r' (List.mem_filter.mp hr').1

theorem not_live_of_isBusy {record : ModelRecord} (h : s.isBusy p record = false) :
    record.id ∉ s.tasks.keys := by
  unfold St.isBusy at h
  rw [Bool.or_eq_false_iff, Bool.or_eq_false_iff] at h
  exact of_decide_eq_false h.1.1

theorem deleteModel (h : Owned s) {record : ModelRecord} (reach : Reach)
    (hbusy : s.isBusy p record = false) :
    Owned (s.deleteModel p record reach) := by
  have htried : Owned { s with tried := record.id :: s.tried } := { h with }
  cases reach with
  | nothing => exact htried
  | file => exact htried.unlinkAll _
  | files => exact htried.unlinkAll _
  | row =>
    have hunlinked := htried.unlinkAll (p.unlinked s.files record.sourceType record.path)
    unfold St.deleteModel
    simp only
    rw [St.unlinkAll_eq] at hunlinked ⊢
    have hdead : record.id ∉ s.tasks.keys := not_live_of_isBusy hbusy
    exact hunlinked.removeRow hdead

theorem delete (h : Owned s) (id : String) (reach : Reach) : Owned (s.delete p id reach) := by
  unfold St.delete
  split
  · split
    · exact h
    · exact h.deleteModel reach (Bool.not_eq_true _ ▸ ‹_›)
  · exact h

theorem shutdownTurn (h : Owned s) : Owned s.shutdownTurn := by
  unfold St.shutdownTurn
  split
  · exact h
  · have hset : ∀ (ids : List String) (s : St), Owned s → Owned (ids.foldl St.setCancel s) := by
      intro ids
      induction ids with
      | nil => exact fun _ h => h
      | cons id ids ih => exact fun s h => ih _ (h.setCancel id)
    exact { hset s.cancels.keys s h with }

theorem releaseDone (h : Owned s) : Owned s.releaseDone := by
  have hall : ∀ (es : List (String × Task)) (s : St), Owned s → (∀ e ∈ es, e.1 ∉ s.threads) →
      Owned (es.foldl (fun s e => s.release e.1) s) := by
    intro es
    induction es with
    | nil => exact fun _ h _ => h
    | cons e es ih =>
      intro s h hes
      refine ih _ (h.release (hes e (List.mem_cons_self ..))) fun e' he' => ?_
      exact hes e' (List.mem_cons_of_mem _ he')
  refine hall _ s h fun e he hid => ?_
  obtain ⟨hmem, hdone⟩ := List.mem_filter.mp he
  obtain ⟨probe, cancelling, hget⟩ := h.threads e.1 hid
  have heq : e.2 = ⟨.running probe, cancelling⟩ := Dict.unique h.nodup hmem (Dict.mem_of_get hget)
  rw [heq] at hdone
  cases of_decide_eq_true hdone

theorem wake (h : Owned s) (hst : s.wake = some s') : Owned s' := by
  unfold St.wake at hst
  split at hst
  · cases hst
    have hwoken : Owned { s with shutdowns := s.shutdowns - 1 } := { h with }
    exact hwoken.releaseDone.shutdownTurn
  · cases hst

theorem step {l : Label} (h : Owned s) (hst : step p s l = some s') : Owned s' := by
  cases l with
  | startDownload id base sourceType => cases hst; exact h.startDownload base sourceType
  | run id submits persists => exact h.run hst
  | touch id present => exact h.touch hst
  | threadReturns id outcome => exact h.threadReturns hst
  | resume id submits ready persists => exact h.resume hst
  | cancel id => cases hst; exact h.setCancel id
  | cancelTask id => exact h.cancelTask hst
  | deliver id => exact h.deliver hst
  | importLocal path valid => cases hst; exact h.importLocal path valid
  | hashed key => exact h.hashed hst
  | imported key id stored => exact h.imported hst
  | importCancelled key => exact h.importCancelled hst
  | orphanReturns path =>
    simp only [ModelService.step] at hst
    split at hst
    · cases hst; exact { h with }
    · cases hst
  | beginOperation id => cases hst; exact h.beginOperation id
  | endOperation id => cases hst; exact { h with }
  | delete id reach => cases hst; exact h.delete id reach
  | registerConfigured path id => cases hst; exact h.registerConfigured path id
  | restart => cases hst; exact h.restart
  | reconcile => cases hst; exact h.reconcile
  | shutdown => cases hst; exact h.shutdownTurn
  | wake => exact h.wake hst
  | shutdownCancelled =>
    simp only [ModelService.step] at hst
    split at hst
    · cases hst; exact { h with }
    · cases hst

theorem run_invariant {rows : List ModelRecord} {files : FileTree String} {ls : List Label}
    (hids : (rows.map (·.id)).Nodup) (hrun : Run (ModelService.step p) (.init rows files) ls s) :
    Owned s :=
  hrun.invariant (fun _ _ _ h hst => h.step hst) (init rows files hids)

theorem nothing_owned (h : Owned s) (htasks : s.tasks = []) :
    s.cancels = [] ∧ s.downloadPaths = [] ∧ s.threads = [] := by
  refine ⟨?_, ?_, ?_⟩
  · exact List.map_eq_nil_iff.mp (h.cancels.trans (congrArg Dict.keys htasks))
  · exact List.map_eq_nil_iff.mp (h.paths.trans (congrArg Dict.keys htasks))
  · refine List.eq_nil_iff_forall_not_mem.mpr fun id hid => ?_
    have hlive := h.thread_live hid
    rw [htasks] at hlive
    exact absurd hlive List.not_mem_nil

end Owned

/-- The step with which a call of `shutdown` returns leaves no task. -/
theorem tasks_of_returns {l : Label} (hret : returns s l = true) (hst : step p s l = some s') :
    s'.tasks = [] := by
  cases l with
  | shutdown =>
    cases hst
    have hempty : s.tasks.isEmpty = true := hret
    rw [St.shutdownTurn, if_pos hempty]
    exact List.isEmpty_iff.mp hempty
  | wake =>
    obtain ⟨hwaits, hempty⟩ := Bool.and_eq_true_iff.mp hret
    simp only [step, St.wake, if_pos (of_decide_eq_true hwaits), Option.some.injEq] at hst
    rw [← hst, St.shutdownTurn, if_pos hempty]
    exact List.isEmpty_iff.mp hempty
  | _ => cases hret

/-- In every run: the three tables have the same keys, no two downloads have one destination, no
file is downloaded and imported at once, the entries of a download stay while its thread runs, and
when `shutdown` returns there is no download left, neither in the tables nor in a thread. -/
theorem downloads_owned {rows : List ModelRecord} {files : FileTree String} {ls : List Label}
    (hids : (rows.map (·.id)).Nodup) (hrun : Run (step p) (.init rows files) ls s) :
    (s.cancels.keys = s.tasks.keys ∧ s.downloadPaths.keys = s.tasks.keys) ∧
      (∀ r ∈ s.rows, ∀ r' ∈ s.rows, r.id ∈ s.tasks.keys → r'.id ∈ s.tasks.keys → r.path = r'.path →
        r.id = r'.id) ∧
      (∀ key ∈ s.imports.keys, key ∈ s.importPaths ∧ key ∉ s.downloadPaths.values) ∧
      (∀ id ∈ s.threads, id ∈ s.tasks.keys) ∧
      ∀ l s', step p s l = some s' → returns s l = true →
        s'.tasks = [] ∧ s'.cancels = [] ∧ s'.downloadPaths = [] ∧ s'.threads = [] := by
  have h := Owned.run_invariant hids hrun
  refine ⟨⟨h.cancels, h.paths⟩, h.distinct, ?_, fun id hid => h.thread_live hid, ?_⟩
  · exact fun key hkey => ⟨h.imports key hkey, h.apart key (h.imports key hkey)⟩
  · intro l s' hst hret
    have htasks := tasks_of_returns hret hst
    exact ⟨htasks, (h.step hst).nothing_owned htasks⟩

section Example

/-- A file system without links in its directories. -/
def plainPaths : Paths where
  modelsDir := "models"
  entry := fun path => path
  within := fun entry => decide (entry.toList.take 7 = "models/".toList)

/-- A download is cancelled before its task has run; `shutdown` is called, its caller gives up, and
it is called again. -/
def neverRun : List Label :=
  [.startDownload "a" "a.gguf" .url, .cancelTask "a", .shutdown, .shutdownCancelled,
    .run "a" true true, .shutdown]

theorem downloads_owned_neverRun : ∃ s s', Run (step plainPaths) (.init [] []) neverRun s ∧
    s.tasks.keys = ["a"] ∧ step plainPaths s .wake = some s' ∧
      returns s .wake = true ∧ s'.tasks = [] ∧
    s'.cancels = [] ∧ s'.downloadPaths = [] ∧ s'.threads = [] := by
  obtain ⟨s, hrun, hs⟩ : ∃ s, Run (step plainPaths) (.init [] []) neverRun s ∧
      (s.tasks.keys, returns s .wake, (step plainPaths s .wake).isSome) = (["a"], true, true) :=
    run_of_exec_map rfl
  obtain ⟨hkeys, hret⟩ := Prod.mk.inj hs
  obtain ⟨hret, hsome⟩ := Prod.mk.inj hret
  obtain ⟨s', hst⟩ := Option.isSome_iff_exists.mp hsome
  have hids : (([] : List ModelRecord).map (·.id)).Nodup := List.nodup_nil
  obtain ⟨-, -, -, -, hend⟩ := downloads_owned hids hrun
  exact ⟨s, s', hrun, hkeys, hst, hret, hend .wake s' hst hret⟩

/-- An import is hashing its file while `shutdown` returns: its path is reserved, and its thread
runs. -/
theorem import_outlives_shutdown :
    ¬ ∀ (p : Paths) (rows : List ModelRecord) (files : FileTree String) (ls : List Label)
      (s s' : St) (l : Label),
      (rows.map (·.id)).Nodup → Run (step p) (.init rows files) ls s → step p s l = some s' →
      returns s l = true → s'.importPaths = [] ∧ ∀ i ∈ s'.imports.values, i.hashed = true := by
  intro h
  obtain ⟨s, hrun, hs⟩ : ∃ s, Run (step plainPaths) (.init [] [("models/a.gguf", .file)])
      [.importLocal "models/a.gguf" true] s ∧
        (s.importPaths, s.tasks.isEmpty) = (["models/a.gguf"], true) :=
    run_of_exec_map rfl
  obtain ⟨hpaths, hempty⟩ := Prod.mk.inj hs
  have hst : step plainPaths s .shutdown = some s := by
    rw [step, St.shutdownTurn, if_pos hempty]
  have hnone := (h plainPaths [] _ _ s s .shutdown List.nodup_nil hrun hst hempty).1
  rw [hpaths] at hnone
  cases hnone

end Example

end ModelService

end InferenceEngine
