import Mathlib.Data.List.Basic
import ScreenDoc.Action.Basic
import ScreenDoc.Proofs.Value.Held

/-!
# Actions as values and as JSON

An action of a table is read from its JSON. A step of a sequence is a value that is read from JSON
together with the parameters around it; its action is read from the JSON of this value. Both ways
lead to the same action.

## Main definitions

- `Json.IsProper` — JSON as it comes from a text, with finite numbers

## Main results

- `Json.IsProper.isHeld_of_value?` — what proper JSON stands for can be held by JSON
- `Value.IsHeld.value?_ofValue` — such a value is written and read without loss
- `Action.ofValue?_of_ofJson?` — the value of the JSON of an action reads as the action
-/

namespace ScreenDoc

/-! ### Members read one by one -/

section Members

variable {α β γ : Type} {f : α → Option β} {xs : List α}

theorem mapM_eq_some_iff {ys : List β} : xs.mapM f = some ys ↔ xs.map f = ys.map some := by
  induction xs generalizing ys with
  | nil => cases ys <;> simp
  | cons x xs ih =>
    rw [List.mapM_cons, List.map_cons]
    cases ys with
    | nil => cases f x <;> cases xs.mapM f <;> simp
    | cons y ys => 
      rw [List.map_cons, List.cons.injEq, ← ih]
      cases f x <;> cases xs.mapM f <;> simp

/-- Members that can all be read are read. -/
theorem exists_mapM_eq_some (h : ∀ x ∈ xs, (f x).isSome) : ∃ ys, xs.mapM f = some ys := by
  induction xs with
  | nil => exact ⟨[], rfl⟩
  | cons x xs ih =>
    obtain ⟨y, hy⟩ := Option.isSome_iff_exists.mp (h x List.mem_cons_self)
    obtain ⟨ys, hys⟩ := ih fun x' hx' => h x' (List.mem_cons_of_mem _ hx')
    refine ⟨y :: ys, mapM_eq_some_iff.mpr ?_⟩
    rw [List.map_cons, List.map_cons, hy, mapM_eq_some_iff.mp hys]

/-- What can be told of a member as well as of its result is told of all of them. -/
theorem map_eq_of_mapM {ys : List β} (h : xs.mapM f = some ys) {g : α → γ} {g' : β → γ}
    (hg : ∀ x y, f x = some y → g x = g' y) : xs.map g = ys.map g' := by
  rw [mapM_eq_some_iff] at h
  induction xs generalizing ys with
  | nil =>
    cases ys with
    | nil => rfl
    | cons y ys => cases h
  | cons x xs ih =>
    cases ys with
    | nil => cases h
    | cons y ys =>
      obtain ⟨hx, hxs⟩ := List.cons.inj h
      rw [List.map_cons, List.map_cons, hg x y hx, ih hxs]

/-- Members that are chosen by what can be told of their results as well. -/
theorem mapM_filter {ys : List β} (h : xs.mapM f = some ys) {keep : α → Bool} {keep' : β → Bool}
    (hkeep : ∀ x y, f x = some y → keep x = keep' y) :
    (xs.filter keep).mapM f = some (ys.filter keep') := by
  rw [mapM_eq_some_iff] at h ⊢
  induction xs generalizing ys with
  | nil =>
    cases ys with
    | nil => rfl
    | cons y ys => cases h
  | cons x xs ih =>
    cases ys with
    | nil => cases h
    | cons y ys =>
      obtain ⟨hx, hxs⟩ := List.cons.inj h
      rw [List.filter_cons, List.filter_cons, hkeep x y hx]
      split
      · rw [List.map_cons, List.map_cons, hx, ih hxs]
      · exact ih hxs

end Members

/-! ### JSON with finite numbers -/

/-- JSON as it comes from a text: all numbers in it are finite. -/
inductive Json.IsProper : Json → Prop where
  | unreadable : IsProper .unreadable
  | scalar {value : Value} (h : value.IsHeld) : IsProper (.scalar value)
  | array {items : List Json} (h : ∀ item ∈ items, item.IsProper) : IsProper (.array items)
  | object {members : List (Option String × Json)} (h : ∀ member ∈ members, member.2.IsProper) :
    IsProper (.object members)

namespace Json

/-- An object with these names and members. -/
def ofPairs (pairs : List (String × Json)) : Json :=
  .object (pairs.map fun pair => (some pair.1, pair.2))

theorem ofItems_eq_map (items : List Value) : ofItems items = items.map ofValue := by
  induction items with
  | nil => rfl
  | cons item rest ih => rw [ofItems, ih, List.map_cons]

theorem ofValue_object (fields : List (String × Value)) :
    ofValue (.object fields) = ofPairs (fields.map fun field => (field.1, ofValue field.2)) := by
  rw [ofValue, ofPairs, List.map_map]
  congr 1
  induction fields with
  | nil => rfl
  | cons field rest ih => rw [ofFields, ih, List.map_cons]; rfl

theorem items?_eq_mapM (items : List Json) : items? items = items.mapM value? := by
  induction items with
  | nil => rfl
  | cons item rest ih => rw [items?, List.mapM_cons, ih]; rfl

/-- The value of a member under its name. -/
def field? (pair : String × Json) : Option (String × Value) :=
  pair.2.value?.map fun value => (pair.1, value)

theorem value?_ofPairs (pairs : List (String × Json)) :
    (ofPairs pairs).value? =
      (pairs.mapM field?).map fun fields => .object (Fields.ofList fields) := by
  rw [ofPairs, value?]
  congr 1
  induction pairs with
  | nil => rfl
  | cons pair rest ih =>
    rw [List.map_cons, fields?, List.mapM_cons, ih, field?]
    cases pair.2.value? <;> rfl

/-- An object whose value can be read has names for all its members. -/
theorem exists_ofPairs_of_value? {members : List (Option String × Json)} {value : Value}
    (h : (Json.object members).value? = some value) : ∃ pairs, .object members = ofPairs pairs := by
  rw [value?] at h
  obtain ⟨fields, hfields, -⟩ := Option.map_eq_some_iff.mp h
  clear h
  induction members generalizing fields with
  | nil => exact ⟨[], rfl⟩
  | cons member rest ih =>
    obtain ⟨name, member⟩ := member
    rw [fields?] at hfields
    obtain ⟨name, rfl, hmember⟩ := Option.bind_eq_some_iff.mp hfields
    obtain ⟨_, _, hafter⟩ := Option.bind_eq_some_iff.mp hmember
    obtain ⟨others, hrest, -⟩ := Option.bind_eq_some_iff.mp hafter
    obtain ⟨pairs, hpairs⟩ := ih others hrest
    refine ⟨(name, member) :: pairs, ?_⟩
    rw [ofPairs, List.map_cons, ← (Json.object.inj hpairs)]

theorem ofPairs_inj {pairs others : List (String × Json)} (h : ofPairs pairs = ofPairs others) :
    pairs = others := by
  refine List.map_injective_iff.mpr (fun a b hab => ?_) (Json.object.inj h)
  obtain ⟨hname, hmember⟩ := Prod.mk.inj hab
  exact Prod.ext (Option.some.inj hname) hmember

theorem eq_scalar_of_string? {json : Json} {s : String} (h : json.string? = some s) :
    json = .scalar (.string s) := by
  cases json with
  | scalar value => cases value <;> cases h; rfl
  | _ => cases h

/-- The members of a record with their names. -/
def pairsOf {json : Json} (members : Record json) : List (String × Json) :=
  members.map fun member => (member.1, member.2.1)

/-- Only an object with names for all its members has members. -/
theorem eq_ofPairs_of_members? {json : Json} {members : Record json}
    (h : json.members? = some members) : json = ofPairs (pairsOf members) := by
  cases json with
  | object all =>
    have hall : all.attach.map Subtype.val =
        members.map fun member => (some member.1, member.2.1) := by
      refine map_eq_of_mapM h fun ⟨⟨name, part⟩, hmem⟩ member hmember => ?_
      obtain ⟨name, rfl, rfl⟩ := Option.map_eq_some_iff.mp hmember
      rfl
    rw [List.attach_map_subtype_val] at hall
    rw [ofPairs, pairsOf, List.map_map]
    exact congrArg Json.object hall
  | _ => cases h

theorem exists_members?_ofPairs (pairs : List (String × Json)) :
    ∃ members, (ofPairs pairs).members? = some members ∧ pairsOf members = pairs := by
  have hmembers : ∃ members, (ofPairs pairs).members? = some members := by
    refine exists_mapM_eq_some fun ⟨⟨name, part⟩, hmem⟩ _ => ?_
    obtain ⟨pair, -, heq⟩ := List.mem_map.mp hmem
    cases heq
    rfl
  obtain ⟨members, h⟩ := hmembers
  exact ⟨members, h, (ofPairs_inj (eq_ofPairs_of_members? h)).symm⟩

/-- What proper JSON stands for can be held by JSON. -/
theorem IsProper.isHeld_of_value? {json : Json} (h : json.IsProper) {value : Value}
    (hvalue : json.value? = some value) : value.IsHeld := by
  induction h generalizing value with
  | unreadable => cases hvalue
  | scalar h =>
    cases hvalue
    exact h
  | @array items _ ih =>
    rw [value?, items?_eq_mapM] at hvalue
    obtain ⟨values, hvalues, rfl⟩ := Option.map_eq_some_iff.mp hvalue
    have hmap := mapM_eq_some_iff.mp hvalues
    refine .array fun item hitem => ?_
    have hread : some item ∈ items.map value? := hmap ▸ List.mem_map_of_mem hitem
    obtain ⟨json, hjson, hread⟩ := List.mem_map.mp hread
    exact ih json hjson hread
  | @object members _ ih =>
    obtain ⟨pairs, hpairs⟩ := exists_ofPairs_of_value? hvalue
    rw [hpairs, value?_ofPairs] at hvalue
    obtain ⟨fields, hfields, rfl⟩ := Option.map_eq_some_iff.mp hvalue
    have hmap := mapM_eq_some_iff.mp hfields
    refine .object (Fields.sorted_ofList _) fun field hfield => ?_
    have hread : some field ∈ pairs.map field? :=
      hmap ▸ List.mem_map_of_mem (Fields.mem_ofList hfield)
    obtain ⟨pair, hpair, hread⟩ := List.mem_map.mp hread
    obtain ⟨value, hvalue, rfl⟩ := Option.map_eq_some_iff.mp hread
    have hmember : (some pair.1, pair.2) ∈ members :=
      (Json.object.inj hpairs) ▸ List.mem_map_of_mem hpair
    exact ih _ hmember hvalue

end Json

/-! ### Values written and read -/

namespace Value

/-- A value that JSON can hold is written and read without loss. -/
theorem IsHeld.value?_ofValue {value : Value} (h : value.IsHeld) :
    (Json.ofValue value).value? = some value := by
  induction h with
  | @array items _ ih =>
    have hitems : (items.map Json.ofValue).mapM Json.value? = some items := by
      rw [mapM_eq_some_iff, List.map_map]
      exact List.map_congr_left ih
    rw [Json.ofValue, Json.value?, Json.items?_eq_mapM, Json.ofItems_eq_map, hitems,
      Option.map_some]
  | @object fields hsorted _ ih =>
    have hfields : (fields.map fun field => (field.1, Json.ofValue field.2)).mapM Json.field? =
        some fields := by
      rw [mapM_eq_some_iff, List.map_map]
      refine List.map_congr_left fun field hfield => ?_
      rw [Function.comp_apply, Json.field?, ih field hfield, Option.map_some]
    rw [Json.ofValue_object, Json.value?_ofPairs, hfields, Option.map_some,
      Fields.ofList_of_sorted hsorted]
  | _ => rfl

end Value

/-! ### Actions -/

namespace Action

/-- The parameter that a member writes. -/
def field? (pair : String × Json) : Option (String × Parameter) :=
  pair.2.value?.map fun value => (pair.1, Parameter.ofValue value)

theorem parametersOf?_eq {json : Json} (members : Json.Record json) :
    parametersOf? members =
      (((Json.pairsOf members).filter fun pair => pair.1 ≠ "type").mapM field?).map
        Fields.ofList := by
  rw [parametersOf?, Json.pairsOf, List.filter_map, List.mapM_map]
  exact (Option.map_eq_bind ..).symm

/-- An action is read from the pairs of an object. -/
theorem ofJson?_of_members? {json : Json} {members : Json.Record json}
    (h : json.members? = some members) : ofJson? json =
      match (Json.pairsOf members).filter fun pair => pair.1 = "type" with
      | [(_, kind)] => do
        some ⟨.ofName (← kind.string?), ← (((Json.pairsOf members).filter fun pair =>
          pair.1 ≠ "type").mapM field?).map Fields.ofList⟩
      | _ => none := by
  have htypes : (Json.pairsOf members).filter (fun pair => pair.1 = "type") =
      Json.pairsOf (members.filter fun member => member.1 = "type") := by
    rw [Json.pairsOf, List.filter_map]
    rfl
  rw [ofJson?, h, htypes, Option.bind_eq_bind, Option.bind_some]
  simp only [parametersOf?_eq]
  clear htypes
  generalize members.filter (fun member => member.1 = "type") = types
  rcases types with _ | ⟨type, _ | ⟨other, rest⟩⟩ <;> rfl

/-- An action is read from an object with one text as its type and with values otherwise. -/
theorem ofJson?_ofPairs_eq_some_iff {pairs : List (String × Json)} {action : Action} :
    ofJson? (Json.ofPairs pairs) = some action ↔
      ∃ kindName parameters,
        pairs.filter (fun pair => pair.1 = "type") = [("type", .scalar (.string kindName))] ∧
        (pairs.filter fun pair => pair.1 ≠ "type").mapM field? = some parameters ∧
        action = ⟨.ofName kindName, Fields.ofList parameters⟩ := by
  obtain ⟨members, hmembers, hpairs⟩ := Json.exists_members?_ofPairs pairs
  rw [ofJson?_of_members? hmembers, hpairs]
  constructor
  · intro h
    split at h
    · next name kind htypes =>
      obtain ⟨kindName, hkind, h⟩ := Option.bind_eq_some_iff.mp h
      obtain ⟨_, hothers, h⟩ := Option.bind_eq_some_iff.mp h
      obtain ⟨parameters, hparameters, rfl⟩ := Option.map_eq_some_iff.mp hothers
      have hname : name = "type" := by
        have hmem : (name, kind) ∈ pairs.filter fun pair => pair.1 = "type" :=
          htypes ▸ List.mem_singleton_self _
        simpa using (List.mem_filter.mp hmem).2
      refine ⟨kindName, parameters, ?_, hparameters, (Option.some.inj h).symm⟩
      rw [htypes, hname, Json.eq_scalar_of_string? hkind]
    · cases h
  · rintro ⟨kindName, parameters, htypes, hothers, rfl⟩
    rw [htypes, hothers]
    rfl

/-- All members of an action have a value: the type is a text, and the parameters are read from
theirs. -/
theorem isSome_jsonField?_of_parts {pairs : List (String × Json)} {kindName : String}
    {parameters : List (String × Parameter)}
    (htype : pairs.filter (fun pair => pair.1 = "type") = [("type", .scalar (.string kindName))])
    (hothers : (pairs.filter fun pair => pair.1 ≠ "type").mapM field? = some parameters) :
    ∀ pair ∈ pairs, (Json.field? pair).isSome := by
  intro pair hpair
  by_cases hname : pair.1 = "type"
  · have hmem : pair ∈ pairs.filter fun pair => pair.1 = "type" :=
      List.mem_filter.mpr ⟨hpair, decide_eq_true hname⟩
    rw [htype, List.mem_singleton] at hmem
    rw [hmem]
    rfl
  · have hmem : pair ∈ pairs.filter fun pair => pair.1 ≠ "type" :=
      List.mem_filter.mpr ⟨hpair, decide_eq_true hname⟩
    have hparameter : field? pair ∈ parameters.map some :=
      mapM_eq_some_iff.mp hothers ▸ List.mem_map_of_mem hmem
    obtain ⟨parameter, -, hparameter⟩ := List.mem_map.mp hparameter
    obtain ⟨value, hvalue, -⟩ := Option.map_eq_some_iff.mp hparameter.symm
    rw [Json.field?, hvalue]
    rfl

/-- Parameters are what the values of their members say. -/
theorem parameters_eq_map {pairs : List (String × Json)} {parameters : List (String × Parameter)}
    {fields : List (String × Value)} (hparameters : pairs.mapM field? = some parameters)
    (hfields : pairs.mapM Json.field? = some fields) :
    parameters = fields.map fun field => (field.1, Parameter.ofValue field.2) := by
  have hboth : pairs.map field? =
      fields.map fun field => some (field.1, Parameter.ofValue field.2) :=
    map_eq_of_mapM hfields fun pair field hfield => by
      obtain ⟨value, hvalue, rfl⟩ := Option.map_eq_some_iff.mp hfield
      rw [field?, hvalue, Option.map_some]
  refine List.map_injective_iff.mpr (fun _ _ => Option.some.inj) ?_
  rw [← mapM_eq_some_iff.mp hparameters, List.map_map]
  exact hboth

/-- The value of the JSON of an action reads as the action. -/
theorem ofValue?_of_ofJson? {json : Json} (hproper : json.IsProper) {action : Action}
    (h : ofJson? json = some action) :
    ∃ value, json.value? = some value ∧ ofValue? value = some action := by
  obtain ⟨members, hmembers, -⟩ := Option.bind_eq_some_iff.mp h
  obtain ⟨pairs, rfl⟩ : ∃ pairs, json = Json.ofPairs pairs :=
    ⟨_, Json.eq_ofPairs_of_members? hmembers⟩
  obtain ⟨kindName, parameters, htype, hothers, rfl⟩ := ofJson?_ofPairs_eq_some_iff.mp h
  obtain ⟨fields, hfields⟩ := exists_mapM_eq_some (isSome_jsonField?_of_parts htype hothers)
  have hvalue : (Json.ofPairs pairs).value? = some (.object (Fields.ofList fields)) := by
    rw [Json.value?_ofPairs, hfields, Option.map_some]
  refine ⟨_, hvalue, ?_⟩
  have hheld := hproper.isHeld_of_value? hvalue
  have hkeep (keep : String → Bool) : (pairs.filter fun pair => keep pair.1).mapM Json.field? =
      some (fields.filter fun field => keep field.1) :=
    mapM_filter hfields fun pair field hfield => by
      obtain ⟨value, -, rfl⟩ := Option.map_eq_some_iff.mp hfield
      rfl
  rw [ofValue?, hheld.finite_eq, Json.ofValue_object]
  refine ofJson?_ofPairs_eq_some_iff.mpr ⟨kindName,
    ((Fields.ofList fields).filter fun field => field.1 ≠ "type").map fun field =>
      (field.1, Parameter.ofValue field.2), ?_, ?_, ?_⟩
  · have htypes : fields.filter (fun field => field.1 = "type") = [("type", .string kindName)] := by
      have hread := hkeep fun name => name = "type"
      rw [htype] at hread
      exact (Option.some.inj hread).symm
    rw [List.filter_map]
    change List.map _ ((Fields.ofList fields).filter fun field => field.1 = "type") = _
    rw [← Fields.ofList_filter fun name => name = "type", htypes]
    rfl
  · rw [mapM_eq_some_iff, List.filter_map, List.map_map, List.map_map]
    refine List.map_congr_left fun field hfield => ?_
    have hfield : field.2.IsHeld := by
      cases hheld with
      | object _ hfields => exact hfields field (List.mem_filter.mp hfield).1
    simp only [Function.comp_apply, field?, hfield.value?_ofValue, Option.map_some]
  · rw [parameters_eq_map hothers (hkeep fun name => name ≠ "type"), Fields.ofList_map, Fields.ofList_map,
      Fields.ofList_filter fun name => name ≠ "type",
      Fields.ofList_of_sorted ((Fields.sorted_ofList fields).filter _)]

end Action

end ScreenDoc
