import InferenceEngine.Models.Loading

/-!
# Models.LoadRaces

`load_model` and `unload_model` as requests that overlap. What a request does between two awaits is
one step; it may read `app.state.backend` in one step and write it in a later one. A load reads what
it replaces in the step in which it writes. An unload does not look again: it clears the reference
and the flag, whatever was put there while it waited for its backend.

Requests are numbered in the order in which they begin, and the backend of load `k` is the object `k
+ 1`; `0` is the one from the startup. A request only ever unloads an older backend (`Inv.owes`),
unless it comes late, which is what `mayRun` excludes.
-/

namespace InferenceEngine
namespace LoadRaces

open Lts Loading

/-- A backend object, and the name it was built with. -/
structure Object where
  ref : Nat
  name : String
  deriving DecidableEq

/-- Where a load is. -/
inductive LoadPlace where
  | loading
  /-- it is in place, and waits for the one before to be unloaded -/
  | replacing (previous : Object)
  | returned
  /-- it is in place, and unloading the one before has raised -/
  | raised
  /-- it was refused, or the model could not be loaded -/
  | refused
  deriving DecidableEq

inductive UnloadPlace where
  | waiting (backend : Object)
  | returned
  deriving DecidableEq

inductive Request where
  | load (id name : String) (place : LoadPlace)
  | unload (place : UnloadPlace)
  deriving DecidableEq

structure St where
  rows : List Model
  /-- `app.state.backend` -/
  backend : Option Object
  /-- the objects whose model is loaded -/
  ready : List Nat
  /-- `ModelService._operations` -/
  operations : List String
  requests : List Request

inductive Label where
  /-- a load begins, and comes to `await backend.load()`, unless an import holds the file -/
  | load (id : String) (idle : Bool)
  /-- the model of a load is loaded, or not -/
  | loaded (k : Nat) (loads : Bool)
  /-- `previous.unload()` ends -/
  | replaced (k : Nat) (raises : Bool)
  /-- an unload begins, and comes to `await backend.unload()` if there is something to unload -/
  | unload (id : String)
  | unloaded (k : Nat) (raises : Bool)

namespace Request

/-- The object that the request is unloading. -/
def pending : Request → Option Object
  | .load _ _ (.replacing previous) => some previous
  | .unload (.waiting backend) => some backend
  | _ => none

/-- The request has put its backend in place. -/
def installed : Request → Bool
  | .load _ _ (.replacing _) | .load _ _ .returned | .load _ _ .raised => true
  | _ => false

end Request

namespace St

def init (rows : List Model) (backend : Option String) (loaded : Bool) : St where
  rows := rows
  backend := backend.map fun name => ⟨0, name⟩
  ready := if backend.isSome ∧ loaded then [0] else []
  operations := []
  requests := []

def get? (s : St) (id : String) : Option Model := s.rows.find? (·.id = id)

/-- `_is_loaded`, with the backend it finds. -/
def isLoaded (s : St) (record : Model) (backend : Object) : Bool :=
  record.active && decide (backend.ref ∈ s.ready) && decide (backend.name = record.name)

def begin (s : St) (r : Request) : St := { s with requests := s.requests ++ [r] }

def go (s : St) (k : Nat) (r : Request) : St := { s with requests := s.requests.set k r }

def load (c : Settings) (s : St) (id : String) (idle : Bool) : St :=
  match s.get? id with
  | some record =>
    if c.mayLoad record ∧ id ∉ s.operations ∧ idle then
      { s with operations := id :: s.operations }.begin (.load id record.name .loading)
    else s.begin (.load id record.name .refused)
  | none => s.begin (.load id "" .refused)

/-- The end of `with service.operation(record)`. -/
def endOperation (s : St) (id : String) : St :=
  { s with operations := s.operations.filter (· ≠ id) }

/-- The backend is put in place, its row is the active one, and what was there is unloaded. -/
def install (s : St) (k : Nat) (id name : String) : St :=
  let s' := { s with
    backend := some ⟨k + 1, name⟩
    ready := (k + 1) :: s.ready
    rows := setActive s.rows id }
  match s.backend with
  | some previous => s'.go k (.load id name (.replacing previous))
  | none => (s'.endOperation id).go k (.load id name .returned)

def loaded (s : St) (k : Nat) (loads : Bool) : Option St :=
  match s.requests[k]? with
  | some (.load id name .loading) =>
    some (if loads then s.install k id name else (s.endOperation id).go k (.load id name .refused))
  | _ => none

/-- The object has no model any more, even if its `unload` raises. -/
def drop (s : St) (backend : Object) : St := { s with ready := s.ready.filter (· ≠ backend.ref) }

def replaced (s : St) (k : Nat) (raises : Bool) : Option St :=
  match s.requests[k]? with
  | some (.load id name (.replacing previous)) =>
    some (((s.drop previous).endOperation id).go k
      (.load id name (if raises then .raised else .returned)))
  | _ => none

def unload (s : St) (id : String) : St :=
  match s.get? id, s.backend with
  | some record, some backend =>
    if s.isLoaded record backend then s.begin (.unload (.waiting backend))
    else { s with rows := clearActive s.rows }.begin (.unload .returned)
  | some _, none => { s with rows := clearActive s.rows }.begin (.unload .returned)
  | none, _ => s.begin (.unload .returned)

def unloaded (s : St) (k : Nat) (raises : Bool) : Option St :=
  match s.requests[k]? with
  | some (.unload (.waiting backend)) =>
    let s' := (s.drop backend).go k (.unload .returned)
    some (if raises then s' else { s' with backend := none, rows := clearActive s.rows })
  | _ => none

end St

def step (c : Settings) (s : St) : Label → Option St
  | .load id idle => some (s.load c id idle)
  | .loaded k loads => s.loaded k loads
  | .replaced k raises => s.replaced k raises
  | .unload id => some (s.unload id)
  | .unloaded k raises => s.unloaded k raises

/-- Nothing comes late: an unload that goes on finds the backend it has read, or none, and a load
that goes on finds no younger one in place. -/
def mayRun (s : St) : Label → Prop
  | .unloaded k raises =>
    raises = false → ∀ backend, s.requests[k]? = some (.unload (.waiting backend)) →
      s.backend = none ∨ s.backend = some backend
  | .loaded k loads => loads = true → ∀ (j : Nat) (r : Request), k < j → s.requests[j]? = some r →
      r.installed = false
  | _ => True

/-- The load that began last, and has returned, is in place. -/
def Settled (s : St) : Prop :=
  ∀ (k : Nat) (id name : String), s.requests[k]? = some (.load id name .returned) →
    k + 1 = s.requests.length →
    s.backend = some ⟨k + 1, name⟩ ∧ k + 1 ∈ s.ready ∧ ∃ r ∈ s.rows, r.id = id ∧ SoleActive s.rows r

/-- A loaded object is the one that is used, or is being unloaded. -/
def Reachable (s : St) : Prop :=
  ∀ ref ∈ s.ready, (∃ backend, s.backend = some backend ∧ backend.ref = ref) ∨
    ∃ (k : Nat) (r : Request) (backend : Object), s.requests[k]? = some r ∧
      r.pending = some backend ∧
      backend.ref = ref

/-- The end of an unload does not undo a load that began after it and is in place. -/
def Lasting (s : St) (l : Label) (s' : St) : Prop :=
  ∀ (k : Nat) (raises : Bool) (j : Nat) (backend : Object), l = .unloaded k raises → k < j →
    s.backend = some backend → backend.ref = j + 1 →
    s'.backend = s.backend ∧ s'.rows = s.rows

structure Inv (s : St) : Prop where
  /-- what is being unloaded is older than the request -/
  owes : ∀ (k : Nat) (r : Request) (backend : Object), s.requests[k]? = some r →
    r.pending = some backend →
    backend.ref ≤ k
  /-- what is in place has been put there -/
  placed : ∀ backend, s.backend = some backend →
    backend.ref = 0 ∨
      ∃ (j : Nat) (r : Request), backend.ref = j + 1 ∧ s.requests[j]? = some r ∧ r.installed = true
  newest : ∀ (k : Nat) (id name : String) (place : LoadPlace),
    s.requests[k]? = some (.load id name place) →
    (Request.load id name place).installed = true → k + 1 = s.requests.length →
    s.backend = some ⟨k + 1, name⟩ ∧ k + 1 ∈ s.ready ∧ ∃ r ∈ s.rows, r.id = id ∧ SoleActive s.rows r
  listed : ∀ (k : Nat) (id name : String), s.requests[k]? = some (.load id name .loading) →
    id ∈ s.rows.map (·.id)
  reachable : Reachable s

variable {c : Settings} {s s' : St} {k : Nat}

theorem inv_init (rows : List Model) (backend : Option String) (loaded : Bool) :
    Inv (.init rows backend loaded) := by
  have hnone : ∀ (k : Nat) (r : Request), (St.init rows backend loaded).requests[k]? ≠ some r := by
    intro k r h
    cases h
  refine ⟨fun k r _ h => absurd h (hnone k r), ?_, fun k _ _ _ h => absurd h (hnone k _),
    fun k _ _ h => absurd h (hnone k _), ?_⟩
  · intro b hb
    obtain ⟨name, -, rfl⟩ := Option.map_eq_some_iff.mp hb
    exact .inl rfl
  · intro ref href
    simp only [St.init] at href
    split at href
    · rename_i hup
      obtain ⟨name, hname⟩ := Option.isSome_iff_exists.mp hup.1
      rw [List.mem_singleton.mp href]
      exact .inl ⟨⟨0, name⟩, by rw [St.init, hname]; rfl, rfl⟩
    · cases href

/-! ## Requests that begin -/

theorem begin_get {requests : List Request} {r₀ r : Request} {j : Nat}
    (h : (requests ++ [r₀])[j]? = some r) :
    requests[j]? = some r ∨ j = requests.length ∧ r = r₀ := by
  rcases Nat.lt_or_ge j requests.length with hlt | hge
  · rw [List.getElem?_append_left hlt] at h
    exact .inl h
  · have hj : j = requests.length := by
      have hlen := (List.getElem?_eq_some_iff.mp h).1
      rw [List.length_append, List.length_singleton] at hlen
      omega
    subst hj
    rw [List.getElem?_append_right (Nat.le_refl _), Nat.sub_self] at h
    exact .inr ⟨rfl, (Option.some.inj h).symm⟩

theorem get_begin {requests : List Request} {r : Request} {j : Nat} (r₀ : Request)
    (h : requests[j]? = some r) : (requests ++ [r₀])[j]? = some r := by
  rw [List.getElem?_append_left (List.getElem?_eq_some_iff.mp h).1]
  exact h

theorem inv_begin (h : Inv s) {rows : List Model} (hids : rows.map (·.id) = s.rows.map (·.id))
    {operations : List String}
    {r₀ : Request} (hinstalled : r₀.installed = false)
    (hpending : ∀ backend, r₀.pending = some backend → backend.ref ≤ s.requests.length)
    (hlisted : ∀ id name, r₀ = .load id name .loading → id ∈ s.rows.map (·.id)) :
    Inv { s with rows := rows, operations := operations, requests := s.requests ++ [r₀] } := by
  refine ⟨?_, ?_, ?_, ?_, ?_⟩
  · intro j r backend hj hr
    rcases begin_get hj with hj | ⟨rfl, rfl⟩
    · exact h.owes j r backend hj hr
    · exact hpending backend hr
  · intro backend hbackend
    rcases h.placed backend hbackend with h0 | ⟨j, r, href, hj, hr⟩
    · exact .inl h0
    · exact .inr ⟨j, r, href, get_begin r₀ hj, hr⟩
  · -- the new one is the last one, and has installed nothing
    intro j id name place hj hr hlast
    rcases begin_get hj with hj' | ⟨rfl, rfl⟩
    · have hlt := (List.getElem?_eq_some_iff.mp hj').1
      simp only [List.length_append, List.length_singleton] at hlast
      omega
    · rw [hinstalled] at hr
      cases hr
  · intro j id name hj
    show id ∈ rows.map (·.id)
    rw [hids]
    rcases begin_get hj with hj | ⟨rfl, hr⟩
    · exact h.listed j id name hj
    · exact hlisted id name hr.symm
  · intro ref href
    rcases h.reachable ref href with hused | ⟨j, r, backend, hj, hr, hb⟩
    · exact .inl hused
    · exact .inr ⟨j, r, backend, get_begin r₀ hj, hr, hb⟩

theorem ref_le (h : Inv s) {backend : Object} (hbackend : s.backend = some backend) :
    backend.ref ≤ s.requests.length := by
  rcases h.placed backend hbackend with h0 | ⟨j, r, href, hj, -⟩
  · omega
  · have hlt := (List.getElem?_eq_some_iff.mp hj).1
    omega

theorem load_inv (h : Inv s) (id : String) (idle : Bool) : Inv (s.load c id idle) := by
  have hrefused : ∀ name, Inv (s.begin (.load id name .refused)) := by
    intro name
    refine inv_begin h rfl rfl ?_ ?_
    · intro _ hpending
      cases hpending
    · intro _ _ hloading
      cases hloading
  unfold St.load
  split
  · rename_i record hget
    split
    · refine inv_begin h rfl rfl ?_ ?_
      · intro _ hpending
        cases hpending
      · intro id' name' heq
        cases heq
        unfold St.get? at hget
        have hid := List.find?_some hget
        exact List.mem_map.mpr ⟨record, List.mem_of_find?_eq_some hget, of_decide_eq_true hid⟩
    · exact hrefused record.name
  · exact hrefused ""

theorem unload_inv (h : Inv s) (id : String) : Inv (s.unload id) := by
  have hreturned : ∀ rows : List Model, rows.map (·.id) = s.rows.map (·.id) →
      Inv ({ s with rows := rows }.begin (.unload .returned)) := by
    intro rows hids
    refine inv_begin h hids rfl ?_ ?_
    · intro _ hpending
      cases hpending
    · intro _ _ hloading
      cases hloading
  unfold St.unload
  split
  · rename_i backend _ hbackend
    split
    · refine inv_begin h rfl rfl ?_ ?_
      · intro backend' hpending
        cases hpending
        exact ref_le h hbackend
      · intro _ _ hloading
        cases hloading
    · exact hreturned _ (clearActive_ids s.rows)
  · exact hreturned _ (clearActive_ids s.rows)
  · exact hreturned _ rfl

/-! ## Requests that go on -/

theorem set_get {requests : List Request} {r₀ r : Request} {j : Nat}
    (h : (requests.set k r₀)[j]? = some r) :
    j = k ∧ r = r₀ ∨ j ≠ k ∧ requests[j]? = some r := by
  by_cases hjk : j = k
  · subst hjk
    rw [List.getElem?_set_self' ] at h
    obtain ⟨r', -, heq⟩ := Option.map_eq_some_iff.mp h
    exact .inl ⟨rfl, heq.symm⟩
  · rw [List.getElem?_set_ne (fun heq => hjk heq.symm)] at h
    exact .inr ⟨hjk, h⟩

theorem get_set_self {requests : List Request} {r : Request} (r₀ : Request)
    (h : requests[k]? = some r) : (requests.set k r₀)[k]? = some r₀ := by
  rw [List.getElem?_set_self (List.getElem?_eq_some_iff.mp h).1]

theorem get_set_of_ne {requests : List Request} {r : Request} {j : Nat} (r₀ : Request) (hne : j ≠ k)
    (h : requests[j]? = some r) : (requests.set k r₀)[j]? = some r := by
  rw [List.getElem?_set_ne (fun heq => hne heq.symm)]
  exact h

/-- A request that is through with what it was unloading; whether it has its backend in place does
not change. The objects that are younger than it are as they were. -/
theorem inv_go (h : Inv s) {r₀ : Request} (r₁ : Request) (hk : s.requests[k]? = some r₀)
    (hdone : r₁.pending = none) (hinstalled : r₁.installed = r₀.installed)
    (hload : ∀ id name place, r₁ = .load id name place → place ≠ .loading ∧ ∃ place₀,
      r₀ = .load id name place₀) (operations : List String) {ready : List Nat}
      (hsub : ∀ ref ∈ ready, ref ∈ s.ready) (hgone : ∀ backend, r₀.pending = some backend →
      backend.ref ∉ ready) (hkeep : ∀ ref ∈ s.ready, k < ref → ref ∈ ready) :
    Inv { s with ready := ready, operations := operations, requests := s.requests.set k r₁ } := by
  refine ⟨?_, ?_, ?_, ?_, ?_⟩
  · intro j r backend' hj hr
    rcases set_get hj with ⟨rfl, rfl⟩ | ⟨-, hj⟩
    · rw [hdone] at hr
      cases hr
    · exact h.owes j r backend' hj hr
  · intro backend' hbackend'
    rcases h.placed backend' hbackend' with h0 | ⟨j, r, href, hj, hr⟩
    · exact .inl h0
    · refine .inr ?_
      by_cases hjk : j = k
      · subst hjk
        cases hk.symm.trans hj
        exact ⟨j, r₁, href, get_set_self r₁ hk, hinstalled.trans hr⟩
      · exact ⟨j, r, href, get_set_of_ne r₁ hjk hj, hr⟩
  · intro j id name place hj hr hlast
    rw [List.length_set] at hlast
    have hlt := (List.getElem?_eq_some_iff.mp hk).1
    obtain ⟨place₀, hj₀, hr₀⟩ : ∃ place₀, s.requests[j]? = some (.load id name place₀) ∧
        (Request.load id name place₀).installed = true := by
      rcases set_get hj with ⟨rfl, heq⟩ | ⟨-, hj⟩
      · obtain ⟨-, place₀, heq₀⟩ := hload id name place heq.symm
        refine ⟨place₀, heq₀ ▸ hk, ?_⟩
        rw [← heq₀, ← hinstalled, ← heq]
        exact hr
      · exact ⟨place, hj, hr⟩
    obtain ⟨hbackend, hready, hrow⟩ := h.newest j id name place₀ hj₀ hr₀ hlast
    exact ⟨hbackend, hkeep _ hready (by omega), hrow⟩
  · intro j id name hj
    rcases set_get hj with ⟨-, heq⟩ | ⟨-, hj⟩
    · exact absurd rfl (hload id name .loading heq.symm).1
    · exact h.listed j id name hj
  · intro ref href
    rcases h.reachable ref (hsub ref href) with hused | ⟨j, r, backend', hj, hr, hb⟩
    · exact .inl hused
    · refine .inr ⟨j, r, backend', get_set_of_ne r₁ ?_ hj, hr, hb⟩
      rintro rfl
      cases hk.symm.trans hj
      exact hgone backend' hr (hb ▸ href)

theorem inv_drop (h : Inv s) {r₀ : Request} (r₁ : Request) {backend : Object}
    (hk : s.requests[k]? = some r₀) (hpending : r₀.pending = some backend)
      (hdone : r₁.pending = none) (hinstalled : r₁.installed = r₀.installed)
      (hload : ∀ id name place, r₁ = .load id name place → place ≠ .loading ∧ ∃ place₀,
      r₀ = .load id name place₀) (operations : List String) :
    Inv { s with
      ready := s.ready.filter (· ≠ backend.ref)
      operations := operations
      requests := s.requests.set k r₁ } := by
  have hold : backend.ref ≤ k := h.owes k r₀ backend hk hpending
  refine inv_go h r₁ hk hdone hinstalled hload operations ?_ ?_ ?_
  · exact fun ref href => (List.mem_filter.mp href).1
  · intro backend' hpending' hmem
    cases hpending.symm.trans hpending'
    exact absurd rfl (of_decide_eq_true (List.mem_filter.mp hmem).2)
  · intro ref href hlt
    exact List.mem_filter.mpr ⟨href, decide_eq_true (by omega)⟩

theorem replaced_inv (h : Inv s) {raises : Bool} (hst : s.replaced k raises = some s') :
    Inv s' := by
  unfold St.replaced at hst
  split at hst
  · rename_i id name previous hk
    cases hst
    refine inv_drop h _ hk rfl ?_ ?_ ?_ _
    · cases raises <;> rfl
    · cases raises <;> rfl
    · intro id' name' place heq
      cases heq
      refine ⟨?_, .replacing previous, rfl⟩
      cases raises
      · exact fun h => by cases h
      · exact fun h => by cases h
  · cases hst

theorem unloaded_inv (h : Inv s) {raises : Bool} (hok : mayRun s (.unloaded k raises))
    (hst : s.unloaded k raises = some s') : Inv s' := by
  unfold St.unloaded at hst
  split at hst
  · rename_i backend hk
    cases hst
    have hdropped : Inv ((s.drop backend).go k (.unload .returned)) := by
      refine inv_drop h (.unload .returned) hk rfl rfl rfl ?_ s.operations
      intro _ _ _ heq
      cases heq
    cases raises with
    | true => exact hdropped
    | false =>
      -- what is in place is the backend that was unloaded
      have hplace : ∀ backend', s.backend = some backend' → backend' = backend := by
        intro backend' hbackend'
        rcases hok rfl backend hk with hnone | hsome
        · rw [hnone] at hbackend'
          cases hbackend'
        · rw [hsome] at hbackend'
          exact (Option.some.inj hbackend').symm
      refine ⟨hdropped.owes, ?_, ?_, ?_, ?_⟩
      · intro _ hnone
        cases hnone
      · intro j id name place hj hr hlast
        obtain ⟨hbackend, hready, -⟩ := hdropped.newest j id name place hj hr hlast
        have hgone := (List.mem_filter.mp hready).2
        rw [← hplace _ hbackend] at hgone
        exact absurd rfl (of_decide_eq_true hgone)
      · intro j id name hj
        show id ∈ (clearActive s.rows).map (·.id)
        rw [clearActive_ids]
        exact hdropped.listed j id name hj
      · intro ref href
        rcases hdropped.reachable ref href with ⟨backend', hbackend', hb⟩ | hpending
        · have hgone := (List.mem_filter.mp href).2
          rw [← hb, hplace backend' hbackend'] at hgone
          exact absurd rfl (of_decide_eq_true hgone)
        · exact .inr hpending
  · cases hst

/-- What a load that goes on finds in place is older than it. -/
theorem previous_le (h : Inv s) {id name : String}
    (hk : s.requests[k]? = some (.load id name .loading)) (hok : mayRun s (.loaded k true))
      {previous : Object} (hprevious : s.backend = some previous) :
    previous.ref ≤ k := by
  rcases h.placed previous hprevious with h0 | ⟨j, r, href, hj, hr⟩
  · omega
  · have hlt : j < k := by
      rcases Nat.lt_trichotomy j k with hlt | rfl | hgt
      · exact hlt
      · cases hk.symm.trans hj
        cases hr
      · rw [hok rfl j r hgt hj] at hr
        cases hr
    omega

theorem inv_install (h : Inv s) {id name : String}
    (hk : s.requests[k]? = some (.load id name .loading)) (hok : mayRun s (.loaded k true))
      (place : LoadPlace) (hinstalled : (Request.load id name place).installed = true)
      (hpending : (Request.load id name place).pending = s.backend) (operations : List String) :
    Inv { s with
      backend := some ⟨k + 1, name⟩
      ready := (k + 1) :: s.ready
      rows := setActive s.rows id
      operations := operations
      requests := s.requests.set k (.load id name place) } := by
  have hself := get_set_self (.load id name place) hk
  refine ⟨?_, ?_, ?_, ?_, ?_⟩
  · intro j r backend hj hr
    rcases set_get hj with ⟨rfl, rfl⟩ | ⟨-, hj⟩
    · exact previous_le h hk hok (hpending.symm.trans hr)
    · exact h.owes j r backend hj hr
  · intro backend hbackend
    cases hbackend
    exact .inr ⟨k, _, rfl, hself, hinstalled⟩
  · intro j id' name' place' hj hr hlast
    rcases set_get hj with ⟨rfl, heq⟩ | ⟨hne, hj⟩
    · cases heq
      obtain ⟨r, hr, hid⟩ := List.mem_map.mp (h.listed j id name hk)
      refine ⟨rfl, List.mem_cons_self .., { r with active := decide (r.id = id) }, ?_, hid, ?_⟩
      · exact List.mem_map.mpr ⟨r, hr, rfl⟩
      · intro r' hr'
        rw [setActive_iff s.rows id r' hr']
        show r'.id = id ↔ r'.id = r.id
        rw [hid]
    · -- a younger one has put nothing in place
      have hlt := (List.getElem?_eq_some_iff.mp hk).1
      rw [List.length_set] at hlast
      rw [hok rfl j _ (by omega) hj] at hr
      cases hr
  · intro j id' name' hj
    show id' ∈ (setActive s.rows id).map (·.id)
    rw [setActive_ids]
    rcases set_get hj with ⟨-, heq⟩ | ⟨-, hj⟩
    · cases heq
      cases hinstalled
    · exact h.listed j id' name' hj
  · intro ref href
    rcases List.mem_cons.mp href with rfl | href
    · exact .inl ⟨⟨k + 1, name⟩, rfl, rfl⟩
    · rcases h.reachable ref href with ⟨backend, hbackend, hb⟩ | ⟨j, r, backend, hj, hr, hb⟩
      · exact .inr ⟨k, _, backend, hself, hpending.trans hbackend, hb⟩
      · refine .inr ⟨j, r, backend, get_set_of_ne _ ?_ hj, hr, hb⟩
        rintro rfl
        cases hk.symm.trans hj
        cases hr

theorem loaded_inv (h : Inv s) {loads : Bool} (hok : mayRun s (.loaded k loads))
    (hst : s.loaded k loads = some s') : Inv s' := by
  unfold St.loaded at hst
  split at hst
  · rename_i id name hk
    cases hst
    cases loads with
    | true =>
      simp only [if_true, St.install]
      split
      · rename_i previous hprevious
        exact inv_install h hk hok (.replacing previous) rfl hprevious.symm s.operations
      · rename_i hnone
        exact inv_install h hk hok .returned rfl hnone.symm _
    | false =>
      refine inv_go h (.load id name .refused) hk rfl rfl ?_ _ (fun _ h => h) ?_ fun _ h _ => h
      · intro id' name' place heq
        cases heq
        exact ⟨fun h => (by cases h), .loading, rfl⟩
      · intro _ hpending
        cases hpending
  · cases hst

/-! ## Runs -/

theorem step_inv {l : Label} (h : Inv s) (hok : mayRun s l) (hst : step c s l = some s') :
    Inv s' := by
  cases l with
  | load id idle => cases hst; exact load_inv h id idle
  | loaded k loads => exact loaded_inv h hok hst
  | replaced k raises => exact replaced_inv h hst
  | unload id => cases hst; exact unload_inv h id
  | unloaded k raises => exact unloaded_inv h hok hst

theorem step_lasting {l : Label} (h : Inv s) (hok : mayRun s l) (hst : step c s l = some s') :
    Lasting s l s' := by
  rintro k raises j backend rfl hkj hbackend href
  simp only [step, St.unloaded] at hst
  split at hst
  · rename_i waited hk
    cases hst
    cases raises with
    | true => exact ⟨rfl, rfl⟩
    | false =>
      have hold := h.owes k _ waited hk rfl
      rcases hok rfl waited hk with hnone | hsome
      · rw [hbackend] at hnone
        cases hnone
      · rw [hbackend] at hsome
        cases hsome
        omega
  · cases hst

/-- In a run in which nothing comes late, a load that has returned is in place until another request
begins, no loaded object is lost, and no unload undoes a load that began after it. -/
theorem loads_last {rows : List Model} {backend : Option String} {loaded : Bool} {ls : List Label}
    (hrun : Run (step c) (.init rows backend loaded) ls s)
    (hok : Guarded (step c) mayRun (.init rows backend loaded) ls) :
    Settled s ∧ Reachable s ∧ Along (step c) Lasting (.init rows backend loaded) ls := by
  have hinv : Inv s := hrun.invariant_of_guarded
      (fun _ _ _ h hok hst => step_inv h hok hst) hok (inv_init ..)
  refine ⟨?_, hinv.reachable, ?_⟩
  · exact fun k id name hk hlast => hinv.newest k id name .returned hk rfl hlast
  · have hstep : ∀ s l s', Inv s → mayRun s l → step c s l = some s' → Lasting s l s' ∧ Inv s' :=
      fun _ _ _ h hok hst => ⟨step_lasting h hok hst, step_inv h hok hst⟩
    exact Guarded.along hstep (inv_init ..) hok

theorem mayRun_last (loads : Bool) (hlast : k + 1 = s.requests.length) :
    mayRun s (.loaded k loads) := by
  intro _ j r hj hr
  have hlt := (List.getElem?_eq_some_iff.mp hr).1
  omega

section Example

/-- One model is loaded, and then another in its place. -/
def twoLoads : List Label :=
  [.load "a" true, .loaded 0 true, .load "b" true, .loaded 1 true, .replaced 1 false]

theorem loads_last_twoLoads : ∃ s, Run (step noModel) (.init twoModels none false) twoLoads s ∧
    s.backend = some ⟨2, "b"⟩ ∧ 2 ∈ s.ready ∧ ∃ r ∈ s.rows, r.id = "b" ∧ SoleActive s.rows r := by
  obtain ⟨s, hrun, hs⟩ : ∃ s, Run (step noModel) (.init twoModels none false) twoLoads s ∧
      s.requests = [.load "a" "a" .returned, .load "b" "b" .returned] := run_of_exec_map rfl
  have hok : Guarded (step noModel) mayRun (.init twoModels none false) twoLoads := by
    refine ⟨trivial, fun s₁ h₁ => ⟨?_, fun s₂ h₂ => ⟨trivial, fun s₃ h₃ => ⟨?_, ?_⟩⟩⟩⟩
    · cases h₁
      exact mayRun_last true rfl
    · cases h₁
      cases h₂
      cases h₃
      exact mayRun_last true rfl
    · exact fun _ _ => ⟨trivial, fun _ _ => trivial⟩
  exact ⟨s, hrun, (loads_last hrun hok).1 1 "b" "b" (by rw [hs]; rfl) (by rw [hs]; rfl)⟩

/-- `a` is being unloaded while `b` is loaded in its place; the unload ends after the load has
returned. -/
def lateUnload : List Label :=
  [.load "a" true, .loaded 0 true, .unload "a", .load "b" true, .loaded 2 true, .replaced 2 false,
    .unloaded 1 false]

/-- The load of `b` is undone, and its model stays loaded where nothing finds it. -/
theorem late_unload_undoes :
    ¬ ∀ (c : Settings) (rows : List Model) (backend : Option String) (loaded : Bool)
      (ls : List Label) (s : St),
      Run (step c) (.init rows backend loaded) ls s → Settled s ∧ Reachable s := by
  intro h
  obtain ⟨s, hrun, hs⟩ : ∃ s, Run (step noModel) (.init twoModels none false) lateUnload s ∧
      (s.requests, s.backend) =
        ([.load "a" "a" .returned, .unload .returned, .load "b" "b" .returned], none) :=
          run_of_exec_map rfl
  obtain ⟨hrequests, hbackend⟩ := Prod.mk.inj hs
  have hsettled := (h noModel twoModels none false lateUnload s hrun).1 2 "b" "b"
      (by rw [hrequests]; rfl)
    (by rw [hrequests]; rfl)
  rw [hbackend] at hsettled
  cases hsettled.1

end Example

end LoadRaces

end InferenceEngine
