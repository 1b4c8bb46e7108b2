import Mathlib.Data.List.Basic
import ScreenDoc.Value.Basic

/-!
# Fields in order

The fields of an object in ascending order of their names. Such fields are given by the values that
are found under the names, and pairs in any order become such fields.

## Main results

- `Fields.ofList_of_sorted` — fields in order stay as they are
- `Fields.Sorted.ext` — fields in order with the same values are the same
- `Fields.ofList_map`, `Fields.ofList_filter` — pairs that are changed or chosen one by one
-/

namespace ScreenDoc

namespace Fields

variable {α β : Type} {fields : List (String × α)}

theorem get?_map (f : α → β) (fields : List (String × α)) (name : String) :
    get? (fields.map fun field => (field.1, f field.2)) name = (get? fields name).map f := by
  induction fields with
  | nil => rfl
  | cons field rest ih =>
    rw [List.map_cons, get?, get?, ih]
    by_cases hk : field.1 = name
    · rw [if_pos hk, if_pos hk, Option.map_some]
    · rw [if_neg hk, if_neg hk]

theorem mem_foldl_insert {pairs fields : List (String × α)} {field : String × α}
    (h : field ∈ pairs.foldl (fun fields pair => insert fields pair.1 pair.2) fields) :
    field ∈ pairs ∨ field ∈ fields := by
  induction pairs generalizing fields with
  | nil => exact Or.inr h
  | cons pair rest ih =>
    rcases ih h with hrest | hinsert
    · exact Or.inl (List.mem_cons_of_mem _ hrest)
    · rcases mem_insert hinsert with rfl | hfield
      · exact Or.inl List.mem_cons_self
      · exact Or.inr hfield

theorem mem_ofList {pairs : List (String × α)} {field : String × α} (h : field ∈ ofList pairs) :
    field ∈ pairs :=
  (mem_foldl_insert h).resolve_right List.not_mem_nil

theorem map_insert (f : α → β) (fields : List (String × α)) (name : String) (value : α) :
    (insert fields name value).map (fun field => (field.1, f field.2)) =
      insert (fields.map fun field => (field.1, f field.2)) name (f value) := by
  induction fields with
  | nil => rfl
  | cons first rest ih =>
    rw [List.map_cons, insert, insert]
    split
    · rfl
    · split
      · rfl
      · rw [List.map_cons, ih]

theorem sorted_foldl_insert (pairs : List (String × α)) (h : Sorted fields) :
    Sorted (pairs.foldl (fun fields pair => insert fields pair.1 pair.2) fields) := by
  induction pairs generalizing fields with
  | nil => exact h
  | cons pair rest ih => exact ih (h.insert _ _)

theorem sorted_ofList (pairs : List (String × α)) : Sorted (ofList pairs) :=
  sorted_foldl_insert pairs .nil

/-- A field that comes after all others is written at the end. -/
theorem insert_of_forall_lt {name : String} (h : ∀ field ∈ fields, field.1 < name) (value : α) :
    insert fields name value = fields ++ [(name, value)] := by
  induction fields with
  | nil => rfl
  | cons first rest ih =>
    have hlt : first.1 < name := h first List.mem_cons_self
    have hgt : ¬ name < first.1 := fun hgt => String.lt_irrefl _ (String.lt_trans hlt hgt)
    rw [insert, if_neg (String.ne_of_lt hlt), if_neg hgt,
      ih fun field hfield => h field (List.mem_cons_of_mem _ hfield), List.cons_append]

theorem foldl_insert_of_sorted {pairs : List (String × α)} (h : Sorted (fields ++ pairs)) :
    pairs.foldl (fun fields pair => insert fields pair.1 pair.2) fields = fields ++ pairs := by
  induction pairs generalizing fields with
  | nil => exact (List.append_nil _).symm
  | cons pair rest ih =>
    have hlast : insert fields pair.1 pair.2 = fields ++ [pair] :=
      insert_of_forall_lt (fun field hfield =>
        (List.pairwise_append.mp h).2.2 field hfield pair List.mem_cons_self) _
    rw [List.foldl_cons, hlast, ih (by rwa [List.append_assoc, List.singleton_append]),
      List.append_assoc, List.singleton_append]

/-- Fields in order stay as they are. -/
theorem ofList_of_sorted (h : Sorted fields) : ofList fields = fields :=
  foldl_insert_of_sorted (by rwa [List.nil_append])

theorem ofList_map (f : α → β) (pairs : List (String × α)) :
    ofList (pairs.map fun pair => (pair.1, f pair.2)) =
      (ofList pairs).map fun field => (field.1, f field.2) := by
  suffices h : ∀ fields : List (String × α),
      (pairs.map fun pair => (pair.1, f pair.2)).foldl
        (fun fields pair => insert fields pair.1 pair.2)
        (fields.map fun field => (field.1, f field.2)) =
      (pairs.foldl (fun fields pair => insert fields pair.1 pair.2) fields).map
        fun field => (field.1, f field.2) from h []
  intro fields
  induction pairs generalizing fields with
  | nil => rfl
  | cons pair rest ih => rw [List.map_cons, List.foldl_cons, ← map_insert, ih, List.foldl_cons]

theorem Sorted.get?_eq_some_iff (h : Sorted fields) {name : String} {value : α} :
    get? fields name = some value ↔ (name, value) ∈ fields :=
  ⟨mem_of_get?, fun hmem => h.get?_of_mem hmem⟩

theorem Sorted.nodup (h : Sorted fields) : fields.Nodup := by
  refine List.Pairwise.imp (fun {a b} hlt heq => ?_) (show List.Pairwise _ _ from h)
  rw [heq] at hlt
  exact String.lt_irrefl _ hlt

/-- Fields in order with the same values are the same. -/
theorem Sorted.ext {others : List (String × α)} (h : Sorted fields) (h' : Sorted others)
    (hget : ∀ name, get? fields name = get? others name) : fields = others := by
  have hmem : ∀ field, field ∈ fields ↔ field ∈ others := fun field => by
    rw [← h.get?_eq_some_iff, ← h'.get?_eq_some_iff, hget]
  refine List.Perm.eq_of_pairwise (fun a b _ _ hab hba => ?_) (show List.Pairwise _ _ from h) h'
    ((List.perm_ext_iff_of_nodup h.nodup h'.nodup).mpr hmem)
  exact absurd (String.lt_trans hab hba) (String.lt_irrefl _)

theorem Sorted.map (h : Sorted fields) (f : α → β) :
    Sorted (fields.map fun field => (field.1, f field.2)) :=
  List.pairwise_map.mpr h

theorem Sorted.filter (h : Sorted fields) (keep : String × α → Bool) :
    Sorted (fields.filter keep) :=
  List.Pairwise.filter _ h

/-- A field that is not chosen leaves the chosen ones as they are. -/
theorem filter_insert (h : Sorted fields) (keep : String → Bool) (name : String)
    (value : α) : (insert fields name value).filter (fun field => keep field.1) =
      if keep name then insert (fields.filter fun field => keep field.1) name value
      else fields.filter fun field => keep field.1 := by
  have hchosen : Sorted (fields.filter fun field => keep field.1) := h.filter _
  by_cases hkeep : keep name
  · rw [if_pos hkeep]
    refine ((h.insert _ _).filter _).ext (hchosen.insert _ _) fun other => ?_
    rw [(h.insert _ _).get?_filter, get?_insert, get?_insert, h.get?_filter]
    by_cases hname : name = other
    · rw [if_pos hname, if_pos hname, Option.filter_some, if_pos (hname ▸ hkeep)]
    · rw [if_neg hname, if_neg hname]
  · rw [if_neg hkeep]
    refine ((h.insert _ _).filter _).ext hchosen fun other => ?_
    rw [(h.insert _ _).get?_filter, get?_insert, h.get?_filter]
    by_cases hname : name = other
    · have hother : keep other = false := by simpa [hname] using hkeep
      rw [if_pos hname, Option.filter_some, hother]
      cases get? fields other with
      | none => rfl
      | some value => rw [Option.filter_some, hother]; rfl
    · rw [if_neg hname]

/-- To choose among the names of pairs is to choose among the fields. -/
theorem ofList_filter (keep : String → Bool) (pairs : List (String × α)) :
    ofList (pairs.filter fun pair => keep pair.1) =
      (ofList pairs).filter fun field => keep field.1 := by
  suffices h : ∀ fields : List (String × α), Sorted fields →
      (pairs.filter fun pair => keep pair.1).foldl (fun fields pair => insert fields pair.1 pair.2)
        (fields.filter fun field => keep field.1) =
      (pairs.foldl (fun fields pair => insert fields pair.1 pair.2) fields).filter
        fun field => keep field.1 from h [] .nil
  intro fields hfields
  induction pairs generalizing fields with
  | nil => rfl
  | cons pair rest ih =>
    rw [List.foldl_cons, ← ih _ (hfields.insert _ _), filter_insert hfields]
    by_cases hkeep : keep pair.1
    · rw [List.filter_cons, if_pos hkeep, if_pos hkeep, List.foldl_cons]
    · rw [List.filter_cons, if_neg hkeep, if_neg hkeep]

end Fields

end ScreenDoc
