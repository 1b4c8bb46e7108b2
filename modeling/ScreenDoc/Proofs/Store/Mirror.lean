import ScreenDoc.Store.Scope
import ScreenDoc.Proofs.Store.Grammar
import ScreenDoc.Proofs.Store.Write
import ScreenDoc.Proofs.Value.Fields

/-!
# Iteration scopes and the state

A name that an iteration binds has a value and, if the array lives in the state, a place there. The
value is a copy of what lies at that place.

## Main definitions

- `Scope.Mirrors` — every bound name that has a place has the value that lies there
- `Scope.still` — a scope without the values that can be found in the state
- `Scope.Twins` — two scopes that mirror two states in the same way

## Main results

- `Scope.Twins.lookup` — in twin scopes, a path leads to the same place, or to the same value if
  there is none
- `Scope.Twins.refreshed_eq` — the one scope brought up to date with the other state is the other
- `Scope.Twins.push` — twin scopes stay so with one more frame of twin bindings
-/

namespace ScreenDoc

namespace Store

/-- A path that does not start with a key leads nowhere. -/
theorem get?_eq_none_of_not_rooted (store : Store) {path : Path} (h : ¬ path.firstKey?.isSome) :
    store.get? path = none := by
  obtain ⟨segments⟩ := path
  cases segments with
  | nil => rfl
  | cons segment rest =>
    cases segment with
    | key name => exact absurd rfl h
    | index i => rfl

/-- What lies below a place is found from the value at that place. -/
theorem get?_append {store : Store} {path : Path} (rest : Path) (h : path.firstKey?.isSome) :
    store.get? (path.append rest) = (store.get? path).bind (Value.lookup · rest.segments) := by
  obtain ⟨segments⟩ := path
  cases segments with
  | nil => cases h
  | cons segment after =>
    rw [get?_eq_lookup (by simp [Path.append]), get?_eq_lookup (by simp)]
    exact Value.lookup_append _ _ _

end Store

namespace Path

theorem firstKey?_append {path : Path} (rest : Path) (h : path.firstKey?.isSome) :
    (path.append rest).firstKey?.isSome := by
  obtain ⟨segments⟩ := path
  cases segments with
  | nil => cases h
  | cons segment after =>
    cases segment with
    | key name => rfl
    | index i => cases h

end Path

namespace Scope

/-! ### Mirrors -/

/-- Whether a binding that has a place in the state has the value that lies there. -/
def Entry.Mirrors (entry : Entry) (store : Store) : Prop :=
  ∀ source, entry.source = some source →
    source.firstKey?.isSome ∧ store.get? source = some entry.value

/-- Whether every bound name that has a place in the state has the value that lies there. -/
def Mirrors (scope : Scope) (store : Store) : Prop :=
  ∀ frame ∈ scope.frames, ∀ field ∈ frame, field.2.Mirrors store

theorem mirrors_empty (store : Store) : empty.Mirrors store := by
  intro frame hframe
  exact absurd hframe List.not_mem_nil

theorem Mirrors.innermost? {scope : Scope} {store : Store} {name : String} {entry : Entry}
    (h : scope.Mirrors store) (hentry : scope.innermost? name = some entry) :
    entry.Mirrors store := by
  obtain ⟨frame, hframe, hget⟩ := List.exists_of_findSome?_eq_some hentry
  exact h frame hframe _ (Fields.mem_of_get? hget)

/-! ### Values that can be found in the state -/

/-- A binding without its value, if that can be found in the state. -/
def Entry.still (entry : Entry) : Entry :=
  match entry.source with
  | some source => ⟨.null, some source⟩
  | none => entry

/-- A scope without the values that can be found in the state. -/
def still (scope : Scope) : Scope :=
  ⟨scope.frames.map fun frame => frame.map fun field => (field.1, field.2.still)⟩

theorem Entry.refreshed_still (entry : Entry) (store : Store) :
    entry.still.refreshed store = entry.refreshed store := by
  obtain ⟨value, source⟩ := entry
  cases source <;> rfl

theorem Entry.source_still (entry : Entry) : entry.still.source = entry.source := by
  obtain ⟨value, source⟩ := entry
  cases source <;> rfl

theorem Entry.still_of_source_eq_none {entry : Entry} (h : entry.source = none) :
    entry.still = entry := by
  obtain ⟨value, source⟩ := entry
  obtain rfl : source = none := h
  rfl

theorem Entry.refreshed_of_mirrors {entry : Entry} {store : Store} (h : entry.Mirrors store) :
    entry.refreshed store = entry := by
  obtain ⟨value, source⟩ := entry
  cases source with
  | none => rfl
  | some source =>
    obtain ⟨-, hget⟩ := h source rfl
    rw [refreshed]
    simp only
    rw [hget, Option.getD_some]

theorem refreshed_still (scope : Scope) (store : Store) :
    scope.still.refreshed store = scope.refreshed store := by
  simp only [refreshed, still, List.map_map, Function.comp_def, Entry.refreshed_still]

theorem refreshed_of_mirrors {scope : Scope} {store : Store} (h : scope.Mirrors store) :
    scope.refreshed store = scope := by
  obtain ⟨frames⟩ := scope
  rw [refreshed, mk.injEq]
  refine (List.map_congr_left fun frame hframe => ?_).trans (List.map_id' frames)
  refine (List.map_congr_left fun field hfield => ?_).trans (List.map_id' frame)
  show (field.1, field.2.refreshed store) = field
  rw [Entry.refreshed_of_mirrors (h frame hframe field hfield)]

theorem innermost?_still (scope : Scope) (name : String) :
    scope.still.innermost? name = (scope.innermost? name).map Entry.still := by
  obtain ⟨frames⟩ := scope
  simp only [innermost?, still]
  induction frames with
  | nil => rfl
  | cons frame rest ih =>
    rw [List.map_cons, List.findSome?_cons, List.findSome?_cons, Fields.get?_map]
    cases Fields.get? frame name with
    | none => exact ih
    | some entry => rfl

/-! ### Twins -/

/-- Whether two scopes mirror two states and bind the same names to the same places, or to the same
values where there is no place. -/
structure Twins (before after : Store) (scope scope' : Scope) : Prop where
  before : scope.Mirrors before
  after : scope'.Mirrors after
  still : scope.still = scope'.still

/-- Whether two paths with bound roots lead to the same place, or to the same value if there is
none. -/
structure Hit.Twins (before after : Store) (hit hit' : Hit) : Prop where
  source : hit.source = hit'.source
  value : hit.source = none → hit.value = hit'.value
  rooted : ∀ path, hit.source = some path → path.firstKey?.isSome
  before : ∀ path, hit.source = some path → before.get? path = hit.value
  after : ∀ path, hit.source = some path → after.get? path = hit'.value

namespace Twins

variable {before after : Store} {scope scope' : Scope}

theorem empty (before after : Store) : Twins before after .empty .empty :=
  ⟨mirrors_empty before, mirrors_empty after, rfl⟩

theorem refl {store : Store} {scope : Scope} (h : scope.Mirrors store) :
    Twins store store scope scope :=
  ⟨h, h, rfl⟩

/-- The one scope brought up to date with the other state is the other one. -/
theorem refreshed_eq (h : Twins before after scope scope') : scope.refreshed after = scope' := by
  rw [← refreshed_still, h.still, refreshed_still]
  exact refreshed_of_mirrors h.after

/-- Scopes that mirror one state in the same way are the same. -/
theorem eq (h : Twins before before scope scope') : scope = scope' := by
  rw [← h.refreshed_eq, refreshed_of_mirrors h.before]

theorem depth_eq (h : Twins before after scope scope') : scope.depth = scope'.depth := by
  have hlength := congrArg (fun scope : Scope => scope.frames.length) h.still
  simpa only [Scope.still, List.length_map, depth] using hlength

theorem innermost? (h : Twins before after scope scope') (name : String) :
    (scope.innermost? name).map Entry.still = (scope'.innermost? name).map Entry.still := by
  rw [← innermost?_still, ← innermost?_still, h.still]

/-- In twin scopes, a path leads to the same place, or to the same value if there is none. -/
theorem lookup (h : Twins before after scope scope') (path : Path) :
    Option.Rel (Hit.Twins before after) (scope.lookup path) (scope'.lookup path) := by
  unfold Scope.lookup
  cases path.firstKey? with
  | none => exact .none
  | some name =>
    have hstill := h.innermost? name
    cases hentry : scope.innermost? name with
    | none =>
      rw [hentry, Option.map_none, eq_comm, Option.map_eq_none_iff] at hstill
      simp only [Option.bind_eq_bind, Option.bind_some, hentry, hstill, Option.bind_none]
      exact .none
    | some entry =>
      rw [hentry, Option.map_some, eq_comm, Option.map_eq_some_iff] at hstill
      obtain ⟨entry', hentry', heq⟩ := hstill
      simp only [Option.bind_eq_bind, Option.bind_some, hentry, hentry']
      have hsource : entry.source = entry'.source := by
        rw [← entry.source_still, ← entry'.source_still, heq]
      refine .some ⟨congrArg (Option.map _) hsource, ?_, ?_, ?_, ?_⟩
      · intro hnone
        rw [Option.map_eq_none_iff] at hnone
        rw [Entry.still_of_source_eq_none hnone,
          Entry.still_of_source_eq_none (hsource ▸ hnone)] at heq
        rw [heq]
      · intro found hfound
        obtain ⟨source, hsome, rfl⟩ := Option.map_eq_some_iff.1 hfound
        exact Path.firstKey?_append _ (h.before.innermost? hentry source hsome).1
      · intro found hfound
        obtain ⟨source, hsome, rfl⟩ := Option.map_eq_some_iff.1 hfound
        obtain ⟨hrooted, hget⟩ := h.before.innermost? hentry source hsome
        rw [Store.get?_append _ hrooted, hget, Option.bind_some]
      · intro found hfound
        obtain ⟨source, hsome, rfl⟩ := Option.map_eq_some_iff.1 hfound
        obtain ⟨hrooted, hget⟩ := h.after.innermost? hentry' source (hsource ▸ hsome)
        rw [Store.get?_append _ hrooted, hget, Option.bind_some]

/-- Twin scopes stay so with one more frame of twin bindings. -/
theorem push (h : Twins before after scope scope') {pairs pairs' : Frame}
    (hbefore : ∀ field ∈ pairs, field.2.Mirrors before)
    (hafter : ∀ field ∈ pairs', field.2.Mirrors after)
    (hstill : pairs.map (fun field => (field.1, field.2.still)) =
      pairs'.map fun field => (field.1, field.2.still)) :
    Twins before after (scope.push pairs) (scope'.push pairs') := by
  refine ⟨?_, ?_, ?_⟩
  · intro frame hframe
    rcases List.mem_cons.1 hframe with rfl | hframe
    · exact hbefore
    · exact h.before frame hframe
  · intro frame hframe
    rcases List.mem_cons.1 hframe with rfl | hframe
    · exact hafter
    · exact h.after frame hframe
  · have hframes := congrArg Scope.frames h.still
    simp only [Scope.still] at hframes
    simp only [Scope.still, Scope.push, List.map_cons, hstill, hframes]

end Twins

end Scope

end ScreenDoc
