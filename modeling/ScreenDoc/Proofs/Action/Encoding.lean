import ScreenDoc.Proofs.Action.Decoding
import ScreenDoc.Proofs.Value.Datum

/-!
# Actions written and read

An action is written as an object: its parameters stand next to its kind, and an expression is an
object itself, with a field that marks it. Reading undoes this, since no parameter of an action that
was read has the name of the kind, since a kind is known by its name, and since an object with the
mark is always read as an expression.

## Main definitions

- `Json.ofDatum` — JSON data as it is read
- `Action.ofDatum?`, `Action.toDatum` — an action read from data and written as data
- `Action.IsWrittenAs` — what an action that was read from data has to do with them

## Main results

- `Parameter.toValue_ofValue`, `Action.Kind.name_ofName` — parameters and kinds that come back
- `Action.ofValue?_object_eq_some_iff` — which objects are actions, and which action each is
- `Action.isWrittenAs_ofDatum?` — which data are actions, and how they come back
-/

namespace ScreenDoc

/-! ### Fields with one name set apart -/

namespace Fields

variable {α β : Type} {fields pairs : List (String × α)} {name : String}

/-- Fields that are written over others are found first. -/
theorem Sorted.get?_foldl_insert (h : Sorted pairs) (fields : List (String × α)) (name : String) :
    get? (pairs.foldl (fun fields pair => Fields.insert fields pair.1 pair.2) fields) name =
      (get? pairs name).or (get? fields name) := by
  induction pairs generalizing fields with
  | nil => rfl
  | cons pair rest ih =>
    obtain ⟨hfirst, hrest⟩ := List.pairwise_cons.mp h
    rw [List.foldl_cons, ih hrest, get?_insert, get?]
    by_cases hname : pair.1 = name
    · -- No later field has this name.
      have hnone : get? rest name = none := get?_eq_none fun field hfield heq =>
        String.lt_irrefl name (by simpa [hname, heq] using hfirst field hfield)
      rw [if_pos hname, if_pos hname, hnone]
      rfl
    · rw [if_neg hname, if_neg hname]

/-- Of fields in order, at most one has a given name. -/
theorem Sorted.filter_name (h : Sorted fields) (name : String) :
    fields.filter (fun field => field.1 = name) =
      (get? fields name).toList.map fun value => (name, value) := by
  refine (h.filter _).ext ?_ fun other => ?_
  · cases get? fields name with
    | none => exact .nil
    | some value => exact List.pairwise_singleton _ _
  · rw [h.get?_filter]
    by_cases hname : name = other
    · subst hname
      cases get? fields name with
      | none => rfl
      | some value => simp [get?]
    · cases get? fields name <;> cases get? fields other <;> simp [get?, hname, Ne.symm hname]

/-- A field that is set apart from the others and written together with them again. -/
theorem Sorted.foldl_insert_filter (h : Sorted fields) {value : α}
    (hvalue : get? fields name = some value) :
    (fields.filter fun field => field.1 ≠ name).foldl
      (fun fields field => Fields.insert fields field.1 field.2) [(name, value)] = fields := by
  have hsingle : Sorted [(name, value)] := List.pairwise_singleton _ _
  refine (sorted_foldl_insert _ hsingle).ext h fun other => ?_
  rw [(h.filter _).get?_foldl_insert, h.get?_filter, get?, get?_nil]
  by_cases hname : name = other
  · subst hname
    rw [hvalue]
    simp
  · cases get? fields other <;> simp [hname, Ne.symm hname]

end Fields

/-! ### Parameters and kinds -/

/-- A parameter that was read is written as the value that it was read from. -/
theorem Parameter.toValue_ofValue (value : Value) : (Parameter.ofValue value).toValue = value := by
  unfold ofValue
  split
  · split
    · next h => rw [toValue, h]
    · rfl
  · rfl

/-- Just an object with the mark alone, and a text, is an expression. -/
theorem Parameter.ofValue_eq_expression_iff {value : Value} {text : String} :
    Parameter.ofValue value = .expression text ↔
      value = .object [(expressionKey, .string text)] := by
  constructor
  · intro h
    rw [← toValue_ofValue value, h, toValue]
  · rintro rfl
    rfl

/-- The kind of a name has this name. -/
theorem Action.Kind.name_ofName (kindName : String) : (ofName kindName).name = kindName := by
  rw [ofName]
  cases hfind : builtin.find? fun kind => kind.name = kindName with
  | none => rfl
  | some kind => simpa using List.find?_some hfind

/-! ### Actions of objects -/

/-- An object that JSON can hold has its fields in order, and JSON can hold each of them. -/
theorem Value.IsHeld.fields {fields : List (String × Value)} (h : (Value.object fields).IsHeld) :
    Fields.Sorted fields ∧ ∀ field ∈ fields, field.2.IsHeld := by
  cases h with
  | object hsorted hheld => exact ⟨hsorted, hheld⟩

namespace Action

variable {fields : List (String × Value)} {action : Action}

theorem eq_string_of_ofValue {value : Value} {s : String}
    (h : Json.ofValue value = .scalar (.string s)) : value = .string s := by
  cases value with
  | string t => rw [Json.ofValue] at h; cases h; rfl
  | _ => rw [Json.ofValue] at h; cases h

/-- Which objects are actions, and which action each is. -/
theorem ofValue?_object_eq_some_iff (h : (Value.object fields).IsHeld) :
    ofValue? (.object fields) = some action ↔
      ∃ kindName, Fields.get? fields "type" = some (.string kindName) ∧
        action = ⟨.ofName kindName, (fields.filter fun field => field.1 ≠ "type").map fun field =>
          (field.1, Parameter.ofValue field.2)⟩ := by
  obtain ⟨hsorted, hheld⟩ := h.fields
  have htypes : (fields.map fun field => (field.1, Json.ofValue field.2)).filter
      (fun pair => pair.1 = "type") =
        (Fields.get? fields "type").toList.map fun value => ("type", Json.ofValue value) := by
    rw [List.filter_map]
    change List.map _ (fields.filter fun field => field.1 = "type") = _
    rw [hsorted.filter_name, List.map_map]
    rfl
  have hothers : ((fields.map fun field => (field.1, Json.ofValue field.2)).filter
      (fun pair => pair.1 ≠ "type")).mapM field? =
        some ((fields.filter fun field => field.1 ≠ "type").map fun field =>
          (field.1, Parameter.ofValue field.2)) := by
    rw [mapM_eq_some_iff, List.filter_map, List.map_map, List.map_map]
    refine List.map_congr_left fun field hfield => ?_
    have hfield := hheld field (List.mem_filter.mp hfield).1
    simp only [Function.comp_apply, field?, hfield.value?_ofValue, Option.map_some]
  have hparameters : Fields.Sorted ((fields.filter fun field => field.1 ≠ "type").map fun field =>
      (field.1, Parameter.ofValue field.2)) := (hsorted.filter _).map _
  rw [ofValue?, h.finite_eq, Json.ofValue_object, ofJson?_ofPairs_eq_some_iff, htypes, hothers]
  constructor
  · rintro ⟨kindName, parameters, htype, hread, rfl⟩
    obtain rfl := Option.some.inj hread
    refine ⟨kindName, ?_, by rw [Fields.ofList_of_sorted hparameters]⟩
    cases hget : Fields.get? fields "type" with
    | none =>
      rw [hget] at htype
      cases htype
    | some value =>
      rw [hget, Option.toList_some, List.map_singleton, List.singleton_inj, Prod.mk.injEq] at htype
      rw [eq_string_of_ofValue htype.2]
  · rintro ⟨kindName, hget, rfl⟩
    refine ⟨kindName, _, ?_, rfl, by rw [Fields.ofList_of_sorted hparameters]⟩
    rw [hget]
    rfl

/-- An action that was read from an object is written as this object. -/
theorem toValue_of_ofValue?_object (h : (Value.object fields).IsHeld)
    (hread : ofValue? (.object fields) = some action) : action.toValue = .object fields := by
  obtain ⟨kindName, htype, rfl⟩ := (ofValue?_object_eq_some_iff h).mp hread
  have hback := h.fields.1.foldl_insert_filter htype
  rw [toValue, Kind.name_ofName, List.foldl_map]
  simp only [Parameter.toValue_ofValue]
  exact congrArg Value.object hback

end Action

/-! ### JSON data -/

namespace Json

mutual

/-- JSON data as it is read. -/
def ofDatum : Datum → Json
  | .null => .scalar .null
  | .bool b => .scalar (.bool b)
  | .number n => .scalar n.value
  | .string s => .scalar (.string s)
  | .array items => .array (ofData items)
  | .object fields => .object (ofDatumFields fields)

/-- The items of an array of data. -/
def ofData : List Datum → List Json
  | [] => []
  | item :: rest => ofDatum item :: ofData rest

/-- The members for the fields of an object of data. -/
def ofDatumFields : List (String × Datum) → List (Option String × Json)
  | [] => []
  | (name, datum) :: rest => (some name, ofDatum datum) :: ofDatumFields rest

end

mutual

/-- Data are read as the value that they stand for. -/
theorem ofValue_value : (datum : Datum) → ofValue datum.value = ofDatum datum
  | .null => rfl
  | .bool _ => rfl
  | .number n => by
    cases n with
    | natural n =>
      rw [Datum.value, Numeral.value, Value.ofNat, ofDatum, Numeral.value, Value.ofNat]
      split <;> rfl
    | negative n h => rfl
    | double d h => rfl
  | .string _ => rfl
  | .array items => congrArg Json.array (ofItems_itemValues items)
  | .object fields => congrArg Json.object (ofFields_fieldValues fields)

theorem ofItems_itemValues : (items : List Datum) → ofItems (Datum.itemValues items) = ofData items
  | [] => rfl
  | item :: rest => congrArg₂ List.cons (ofValue_value item) (ofItems_itemValues rest)

theorem ofFields_fieldValues : (fields : List (String × Datum)) →
    ofFields (Datum.fieldValues fields) = ofDatumFields fields
  | [] => rfl
  | (name, datum) :: rest =>
    congrArg₂ List.cons (congrArg (Prod.mk (some name)) (ofValue_value datum))
      (ofFields_fieldValues rest)

end

end Json

namespace Datum

/-- The data of the field of this name, of an object. -/
def field? : Datum → String → Option Datum
  | .object fields, name => Fields.get? fields name
  | _, _ => none

theorem field?_value (datum : Datum) (name : String) :
    datum.value.field? name = (datum.field? name).map value := by
  cases datum with
  | object fields =>
    rw [value_object]
    exact Fields.get?_map value fields name
  | number n =>
    cases n with
    | natural n =>
      rw [value, Numeral.value, Value.ofNat]
      split <;> rfl
    | _ => rfl
  | _ => rfl

/-- Plain data are known by their value. -/
theorem IsPlain.value_inj {datum other : Datum} (h : datum.IsPlain) (hother : other.IsPlain) :
    datum.value = other.value ↔ datum = other := by
  refine ⟨fun heq => ?_, congrArg value⟩
  rw [← h.datum_value, heq, hother.datum_value]

theorem IsPlain.of_field? {datum field : Datum} (h : datum.IsPlain) {name : String}
    (hfield : datum.field? name = some field) : field.IsPlain := by
  cases h with
  | object _ hplain => exact hplain _ (Fields.mem_of_get? hfield)
  | _ => cases hfield

/-- A field of plain data comes back from its value. -/
theorem IsPlain.field?_eq {datum : Datum} (h : datum.IsPlain) (name : String) :
    datum.field? name = (datum.value.field? name).map Value.datum := by
  rw [field?_value, Option.map_map]
  cases hfield : datum.field? name with
  | none => rfl
  | some field => exact congrArg some (h.of_field? hfield).datum_value.symm

/-- The value of a field of plain data is that of other plain data just if the field is the same. -/
theorem IsPlain.field?_value_eq_some_iff {datum other : Datum} (h : datum.IsPlain)
    (hother : other.IsPlain) {name : String} :
    datum.value.field? name = some other.value ↔ datum.field? name = some other := by
  rw [field?_value]
  cases hfield : datum.field? name with
  | none => exact iff_of_false nofun nofun
  | some field =>
    rw [Option.map_some, Option.some.injEq, Option.some.injEq,
      (h.of_field? hfield).value_inj hother]

end Datum

/-! ### There and back -/

namespace Action

variable {fields : List (String × Value)} {datum : Datum} {action : Action}

/-- Reads an action from JSON data. -/
def ofDatum? (datum : Datum) : Option Action :=
  ofJson? (Json.ofDatum datum)

/-- Writes an action as JSON data. -/
def toDatum (action : Action) : Datum :=
  action.toValue.datum

/-- What an action that was read from data has to do with them. -/
structure IsWrittenAs (action : Action) (datum : Datum) : Prop where
  /-- The action is written as the data. -/
  toDatum : action.toDatum = datum
  /-- What was written is read as the action. -/
  ofDatum? : Action.ofDatum? action.toDatum = some action
  /-- The value of the data is read as the action, and the action is written as this value. -/
  ofValue? : Action.ofValue? datum.value = some action
  toValue : action.toValue = datum.value
  /-- Every field of the data is the kind or a parameter under its own name. -/
  field : ∀ name, datum.field? name =
    if name = "type" then some (.string action.kind.name)
    else (action.parameter? name).map fun parameter => parameter.toValue.datum
  /-- The parameters with the mark are expressions, and no other ones are. -/
  expression : ∀ name text, action.parameter? name = some (.expression text) ↔
    name ≠ "type" ∧
      datum.field? name = some (.object [(Parameter.expressionKey, .string text)])

theorem parameter?_of_ofValue?_object (h : (Value.object fields).IsHeld)
    (hread : Action.ofValue? (.object fields) = some action) (name : String) :
    action.parameter? name =
      if name = "type" then none else (Fields.get? fields name).map Parameter.ofValue := by
  obtain ⟨kindName, -, rfl⟩ := (ofValue?_object_eq_some_iff h).mp hread
  rw [parameter?, Fields.get?_map, h.fields.1.get?_filter]
  by_cases hname : name = "type"
  · rw [if_pos hname]
    cases Fields.get? fields name <;> simp [hname]
  · rw [if_neg hname]
    cases Fields.get? fields name <;> simp [hname]

theorem kind_of_ofValue?_object (h : (Value.object fields).IsHeld)
    (hread : Action.ofValue? (.object fields) = some action) :
    Fields.get? fields "type" = some (.string action.kind.name) := by
  obtain ⟨kindName, htype, rfl⟩ := (ofValue?_object_eq_some_iff h).mp hread
  rw [htype, Kind.name_ofName]

/-- Plain data are read as their value is. -/
theorem ofDatum?_eq (h : datum.IsPlain) :
    Action.ofDatum? datum = Action.ofValue? datum.value := by
  rw [Action.ofDatum?, Action.ofValue?, h.isHeld_value.finite_eq, Json.ofValue_value]

/-- Only an object is read as an action. -/
theorem exists_object_of_ofDatum? (h : Action.ofDatum? datum = some action) :
    ∃ fields, datum = .object fields := by
  cases datum with
  | object fields => exact ⟨fields, rfl⟩
  | _ => cases h

/-- The fields of an object that was read as an action are its kind and its parameters. -/
theorem field?_of_ofValue?_object (h : (Value.object fields).IsHeld)
    (hread : Action.ofValue? (.object fields) = some action) (name : String) :
    Fields.get? fields name =
      if name = "type" then some (.string action.kind.name)
      else (action.parameter? name).map Parameter.toValue := by
  by_cases hname : name = "type"
  · rw [if_pos hname, hname]
    exact kind_of_ofValue?_object h hread
  · rw [if_neg hname, parameter?_of_ofValue?_object h hread, if_neg hname, Option.map_map]
    cases Fields.get? fields name with
    | none => rfl
    | some value => exact congrArg some (Parameter.toValue_ofValue value).symm

/-- The expressions among the parameters are the fields with the mark. -/
theorem parameter?_eq_expression_iff (h : (Value.object fields).IsHeld)
    (hread : Action.ofValue? (.object fields) = some action) {name text : String} :
    action.parameter? name = some (.expression text) ↔
      name ≠ "type" ∧
        Fields.get? fields name = some (.object [(Parameter.expressionKey, .string text)]) := by
  rw [parameter?_of_ofValue?_object h hread]
  by_cases hname : name = "type"
  · rw [if_pos hname]
    exact iff_of_false nofun fun hright => hright.1 hname
  · rw [if_neg hname, Option.map_eq_some_iff]
    simp only [Parameter.ofValue_eq_expression_iff, exists_eq_right, ne_eq, hname,
      not_false_eq_true, true_and]

/-- What an action that was read from plain data has to do with them. -/
theorem isWrittenAs_of_ofDatum? (h : datum.IsPlain)
    (hread : Action.ofDatum? datum = some action) : action.IsWrittenAs datum := by
  obtain ⟨data, rfl⟩ := exists_object_of_ofDatum? hread
  have hvalue : Action.ofValue? (.object (data.map fun field => (field.1, field.2.value))) =
      some action := by
    rw [← Datum.value_object, ← ofDatum?_eq h, hread]
  have hheld := Datum.value_object data ▸ h.isHeld_value
  have hwritten : action.toValue = (Datum.object data).value :=
    (toValue_of_ofValue?_object hheld hvalue).trans (Datum.value_object data).symm
  have hback : action.toDatum = .object data := by
    rw [toDatum, hwritten, h.datum_value]
  have hfield (name : String) : (Datum.object data).value.field? name =
      Fields.get? (data.map fun field => (field.1, field.2.value)) name :=
    congrArg (Value.field? · name) (Datum.value_object data)
  refine ⟨hback, hback.symm ▸ hread, ofDatum?_eq h ▸ hread, hwritten, fun name => ?_,
    fun name text => ?_⟩
  · rw [h.field?_eq, hfield, field?_of_ofValue?_object hheld hvalue, apply_ite (Option.map _),
      Option.map_map]
    rfl
  · have hmarked : (Datum.object [(Parameter.expressionKey, .string text)]).IsPlain :=
      .object (List.pairwise_singleton _ _) (List.forall_mem_singleton.mpr (.string text))
    rw [parameter?_eq_expression_iff hheld hvalue, ← hfield, ← h.field?_value_eq_some_iff hmarked]
    rfl

/-- However the members of an object are ordered, what is read from it is what is read from its
data. -/
theorem ofDatum?_of_ofJson? (h : datum.IsPlain) {json : Json}
    (hproper : json.IsProper) (hvalue : json.value? = some datum.value)
    (hread : ofJson? json = some action) : Action.ofDatum? datum = some action := by
  obtain ⟨value, hvalue', hread⟩ := ofValue?_of_ofJson? hproper hread
  obtain rfl := Option.some.inj (hvalue.symm.trans hvalue')
  rw [ofDatum?_eq h, hread]

/-- Plain data are read as an action just if they are an object with a text as its type. An action
that was read from JSON with these data is the action of the data and of their value; it is written
as the data and as their value, and read from them again. No parameter is lost, renamed or changed,
and the expressions among the parameters are those with the mark. -/
theorem isWrittenAs_ofDatum? {datum : Datum} (h : datum.IsPlain) :
    ((∃ action, Action.ofDatum? datum = some action) ↔
      ∃ kindName, datum.field? "type" = some (.string kindName)) ∧
    (∀ action, Action.ofDatum? datum = some action → action.IsWrittenAs datum) ∧
    ∀ json : Json, json.IsProper → json.value? = some datum.value →
      ∀ action, ofJson? json = some action →
        Action.ofDatum? datum = some action ∧ action.IsWrittenAs datum := by
  refine ⟨⟨fun ⟨action, hread⟩ => ?_, fun ⟨kindName, htype⟩ => ?_⟩, fun action hread =>
    isWrittenAs_of_ofDatum? h hread, fun json hproper hvalue action hread => ?_⟩
  · exact ⟨action.kind.name, (isWrittenAs_of_ofDatum? h hread).field "type"⟩
  · cases datum with
    | object data =>
      have hvalue := (h.field?_value_eq_some_iff (.string kindName)).mpr htype
      have hheld := h.isHeld_value
      rw [Datum.value_object] at hvalue hheld
      rw [ofDatum?_eq h, Datum.value_object]
      exact ⟨_, (ofValue?_object_eq_some_iff hheld).mpr ⟨kindName, hvalue, rfl⟩⟩
    | _ => cases htype
  · have hread := ofDatum?_of_ofJson? h hproper hvalue hread
    exact ⟨hread, isWrittenAs_of_ofDatum? h hread⟩

/-- A jump to a place that an expression gives, with other data of all kinds. -/
def jumpData : Datum :=
  .object [("height", .number (.double 1.25 (by decide))),
    ("offsets", .array [.number (.negative (-9) (by decide)), .number (.natural 4), .null]),
    ("target", .object [("$expr", .string "places[0]")]),
    ("type", .string "jump"),
    ("within", .object [("limit", .object [("$expr", .string "limit")])])]

/-- The target of a jump is an expression; what is marked within another parameter stays part of a
fixed value. -/
theorem isWrittenAs_ofDatum?_jump :
    jumpData.IsPlain ∧ ∃ action, Action.ofDatum? jumpData = some action ∧
      action.IsWrittenAs jumpData ∧ action.kind.name = "jump" ∧
      action.parameter? "target" = some (.expression "places[0]") ∧
      ∀ text, action.parameter? "within" ≠ some (.expression text) := by
  have hplain : jumpData.IsPlain := by
    refine .object (by rw [Fields.Sorted]; decide +kernel) ?_
    simp only [List.forall_mem_cons, List.not_mem_nil, false_implies, implies_true, and_true]
    refine ⟨.number trivial, .array ?_, .object (List.pairwise_singleton _ _) ?_, .string _,
      .object (List.pairwise_singleton _ _) ?_⟩
    · simp only [List.forall_mem_cons, List.not_mem_nil, false_implies, implies_true, and_true]
      exact ⟨.number trivial, .number (show (4 : UInt64).toNat < _ by decide), .null⟩
    · exact List.forall_mem_singleton.mpr (.string _)
    · exact List.forall_mem_singleton.mpr
        (.object (List.pairwise_singleton _ _) (List.forall_mem_singleton.mpr (.string _)))
  obtain ⟨hread, hwritten, -⟩ := isWrittenAs_ofDatum? hplain
  obtain ⟨action, haction⟩ := hread.mpr ⟨"jump", rfl⟩
  have hcarried := hwritten action haction
  refine ⟨hplain, action, haction, hcarried, ?_, ?_, fun text htext => ?_⟩
  · have hkind : Datum.string "jump" = .string action.kind.name :=
      Option.some.inj (hcarried.field "type")
    exact (Datum.string.inj hkind).symm
  · exact (hcarried.expression "target" "places[0]").mpr ⟨by decide, rfl⟩
  · obtain ⟨-, hfield⟩ := (hcarried.expression "within" text).mp htext
    have hfields := Datum.object.inj (Option.some.inj hfield)
    have hname : "limit" = Parameter.expressionKey :=
      congrArg Prod.fst (List.head_eq_of_cons_eq hfields)
    exact absurd hname (by decide)

end Action

end ScreenDoc
