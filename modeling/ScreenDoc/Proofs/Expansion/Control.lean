import ScreenDoc.Proofs.Expansion.Origin

/-!
# The places that controls set

A toggle, a slider or a text field that is bound shows the value at a place in the state and names
the place, so that a host can write back to it. The name is the canonical text of the place, with
one exception: outside of iterations, a text that is no path stands for itself, and nothing can be
written there.

## Main definitions

- `ViewKind.control?` — the value of a control and the name of the place that it sets
- `Bound.Binds` — a value follows the place of a name, or the name is no path
- `Document.IsLoose` — a text that is no path stands for itself

## Main results

- `Context.boundPath_cases` — a path becomes a template, or is followed
- `Context.binds_boundPath` — what a path is bound to
- `Rulebook.binds_of_build` — the controls of a tree, and what is recorded for them
-/

namespace ScreenDoc

/-- The value of a control and the name of the place that it sets, if it sets one. -/
def ViewKind.control? : ViewKind → Option (Bound × String)
  | .toggle view => view.bind.map fun name => (view.isOn, name)
  | .slider view => view.bind.map fun name => (view.value, name)
  | .textField view => view.bind.map fun name => (view.text, name)
  | _ => none

theorem ViewKind.control?_of_held_eq_nil {kind : ViewKind} (h : kind.held = []) :
    kind.control? = none := by
  cases kind with
  | toggle view => cases h
  | slider view => cases h
  | textField view => cases h
  | _ => rfl

/-! ### Following a path -/

section Follow

variable {scope : Scope} {state : Store}

/-- A path that leads to a place of the state is followed to the value that lies there. -/
theorem followPath_of_read {text : String} {place : Path} {next : Option Value → Option Value}
    (hread : scope.read text.toList = .ask place fun answer => .done (next answer))
    (hnext : next (state.get? place) = state.get? place) :
    place ∈ (followPath scope text).paths state.get? ∧
      ∀ value, state.get? place = some value →
        (followPath scope text).value state.get? = value := by
  rw [followPath, hread]
  refine ⟨List.mem_cons_self, fun value hvalue => ?_⟩
  rw [Reading.value_bind, Reading.value, Reading.value, hnext, hvalue]
  rfl

/-- Outside of iterations, a path is read from the state. -/
theorem Scope.read_of_lookup_eq_none {text : String} {path : Path}
    (hpath : Path.ofText? text = some path) (hlookup : scope.lookup path = none) :
    scope.read text.toList = .ask path fun answer => .done answer := by
  rw [read, show Path.ofChars? text.toList = some path from hpath]
  simp only [readPath, hlookup]

/-- A path with a bound root that has a place is read from the scope. -/
theorem Scope.read_of_lookup_eq_some {text : String} {path place : Path} {value : Option Value}
    (hpath : Path.ofText? text = some path)
    (hlookup : scope.lookup path = some ⟨value, some place⟩) :
    scope.read text.toList = .ask place fun _ => .done value := by
  rw [read, show Path.ofChars? text.toList = some path from hpath]
  simp only [readPath, hlookup]

/-- Blanks around a text do not matter for the path that it writes. -/
theorem Path.ofText?_trim (text : String) :
    ofText? (String.ofList (Text.trim text.toList)) = ofText? text := by
  rw [ofText?, ofText?, ofChars?, ofChars?, String.toList_ofList,
    Text.trim_eq_self (Text.trimmed_trim text.toList)]

end Follow

/-! ### Bindings -/

/-- Whether a value follows the place of a name. Otherwise the name is loose. -/
inductive Bound.Binds (state : Store) (dependencies : List Dependency) (loose : String → Prop) :
    Bound → String → Prop where
  /-- The value is what lies at the place, and the place is recorded. -/
  | place {path : Path} {current : Value} (hwritten : path.Written)
    (hrecorded : ⟨path, .value⟩ ∈ dependencies)
    (hcurrent : ∀ value, state.get? path = some value → current = value) :
    Binds state dependencies loose (.binding path.text current) path.text
  | loose {name : String} {current : Value} (h : loose name) :
    Binds state dependencies loose (.binding name current) name

theorem Bound.Binds.imp {state : Store} {dependencies more : List Dependency}
    {loose loose' : String → Prop} {bound : Bound} {name : String}
    (h : bound.Binds state dependencies loose name) (hmore : dependencies ⊆ more)
    (hloose : ∀ name, loose name → loose' name) : bound.Binds state more loose' name := by
  cases h with
  | place hwritten hrecorded hcurrent => exact .place hwritten (hmore hrecorded) hcurrent
  | loose h => exact .loose (hloose _ h)

/-! ### What is noted on the way -/

namespace Noting

variable {α β : Type} {answers : Path → Option Value}

/-- Whether the result of a computation and its dependencies are related. -/
def Ensures (answers : Path → Option Value) (x : Noting α) (R : α → List Dependency → Prop) :
    Prop :=
  R (x.outcome answers).result (x.outcome answers).dependencies

theorem Ensures.trivial (x : Noting α) : x.Ensures answers fun _ _ => True :=
  True.intro

theorem Ensures.bind {x : Noting α} {f : α → Noting β} {R : α → List Dependency → Prop}
    {S : β → List Dependency → Prop} (hx : x.Ensures answers R)
    (hf : ∀ a noted, R a noted → (f a).Ensures answers fun b more => S b (noted ++ more)) :
    (x >>= f).Ensures answers S := by
  rw [Ensures, bind_eq, outcome_bind]
  exact hf _ _ hx

/-- A relation that more dependencies do not disturb holds after what follows. -/
theorem Ensures.bind_of_mono {x : Noting α} {f : α → Noting β} {R : α → List Dependency → Prop}
    {S : β → List Dependency → Prop} (hx : x.Ensures answers R)
    (hf : ∀ a noted more, R a noted → S ((f a).outcome answers).result (noted ++ more)) :
    (x >>= f).Ensures answers S :=
  hx.bind fun a noted h => hf a noted _ h

end Noting

namespace Context

variable {ctx : Context} {scope : Scope} {state : Store}

/-- What is observed is noted. -/
theorem ensures_observe {α : Type} (htracks : ctx.tracks = true) (answers : Path → Option Value)
    (reading : Reading α) :
    (ctx.observe reading).Ensures answers fun a noted => a = reading.value answers ∧
      ∀ path ∈ reading.paths answers, ⟨path, .value⟩ ∈ noted := by
  refine ⟨by rw [outcome_observe htracks], fun path hpath => ?_⟩
  exact (mem_dependencies_observe htracks).2 hpath

theorem path?_boundTemplate (answers : Path → Option Value) (raw : String) :
    ((ctx.boundTemplate raw).outcome answers).result.path? = none := by
  rw [boundTemplate]
  split
  · rw [Noting.bind_eq, Noting.outcome_bind]
    rfl
  · rfl

/-- The target of a binding is the place that its path leads to. A text that is no path is its own
target. -/
theorem binds_of_bindingTarget? (hscope : scope.Placed state) {text name : String}
    {noted : List Dependency}
    (htarget : (ctx.withScope scope).bindingTarget? text = some name)
    (hnoted : ∀ path ∈ (followPath scope text).paths state.get?, ⟨path, .value⟩ ∈ noted) :
    (Bound.binding name ((followPath scope text).value state.get?)).Binds state noted
      (fun name => Path.ofText? text = none ∧ name = text) name := by
  have hlookup : (ctx.withScope scope).scope = scope := rfl
  rw [bindingTarget?, hlookup] at htarget
  split at htarget
  · next path hpath =>
    have hwritten := (Path.written_of_ofChars? hpath).1
    split at htarget
    · next hit hhit =>
      obtain ⟨value, source⟩ := hit
      obtain ⟨place, hplace, rfl⟩ := Option.map_eq_some_iff.1 htarget
      obtain rfl : source = some place := hplace
      obtain ⟨hwrittenPlace, hget⟩ := hscope.lookup hwritten hhit rfl
      obtain ⟨hasked, hvalue⟩ := followPath_of_read
        (Scope.read_of_lookup_eq_some hpath hhit) hget.symm
      exact .place hwrittenPlace (hnoted place hasked) hvalue
    · next hhit =>
      obtain rfl : path.text = name := Option.some.inj htarget
      obtain ⟨hasked, hvalue⟩ := followPath_of_read
        (Scope.read_of_lookup_eq_none hpath hhit) (Eq.refl (state.get? path))
      exact .place hwritten (hnoted path hasked) hvalue
  · next hnone =>
    obtain rfl : text = name := Option.some.inj htarget
    exact .loose ⟨hnone, rfl⟩

/-- A path becomes a template, or is followed. Within an iteration, a call and a text that is no
path become templates. -/
theorem boundPath_cases (ctx : Context) (raw : String) :
    let text := String.ofList (Text.trim raw.toList)
    ctx.boundPath raw = ctx.boundTemplate (placeholder text) ∨
      (ctx.scope.depth ≠ 0 → '(' ∉ text.toList ∧ Path.ofText? text ≠ none) ∧
        ((∃ target, ctx.bindingTarget? text = some target ∧ ctx.boundPath raw =
            (ctx.observe (followPath ctx.scope text) >>= fun value =>
              pure (.binding target value))) ∨
          ctx.bindingTarget? text = none ∧ ctx.boundPath raw =
            (ctx.observe (followPath ctx.scope text) >>= fun value => pure (.literal value))) := by
  simp only [boundPath]
  generalize String.ofList (Text.trim raw.toList) = text
  split
  · exact .inl rfl
  · next hlive =>
    refine .inr ⟨fun hdepth => ?_, ?_⟩
    · simpa [hdepth, Option.isSome_iff_ne_none] using hlive
    · cases ctx.bindingTarget? text with
      | some target => exact .inl ⟨target, rfl, rfl⟩
      | none => exact .inr ⟨rfl, rfl⟩

/-- A path is bound to the place that it leads to. Outside of iterations, a text that is no path is
loose. -/
theorem binds_boundPath (hscope : scope.Placed state) (htracks : ctx.tracks = true) (raw : String) :
    ((ctx.withScope scope).boundPath raw).Ensures state.get? fun bound noted =>
      ∀ name, bound.path? = some name → bound.Binds state noted (fun name => scope.depth = 0 ∧
        Path.ofText? raw = none ∧ name = String.ofList (Text.trim raw.toList)) name := by
  have htracks' : (ctx.withScope scope).tracks = true := htracks
  have hcases := (ctx.withScope scope).boundPath_cases raw
  simp only at hcases
  rw [← Path.ofText?_trim raw]
  generalize String.ofList (Text.trim raw.toList) = text at hcases ⊢
  rcases hcases with heq | ⟨hlive, ⟨target, htarget, heq⟩ | ⟨-, heq⟩⟩
  · rw [heq]
    intro name hname
    rw [path?_boundTemplate] at hname
    cases hname
  · rw [heq]
    refine (ensures_observe htracks' _ _).bind_of_mono ?_
    rintro _ noted more ⟨rfl, hnoted⟩ name hname
    obtain rfl : target = name := Option.some.inj hname
    refine (binds_of_bindingTarget? hscope htarget hnoted).imp (List.subset_append_left _ _) ?_
    rintro name ⟨hnone, rfl⟩
    -- Within an iteration, such a text would have become a template.
    exact ⟨by_contra fun hdepth => (hlive hdepth).2 hnone, hnone, rfl⟩
  · rw [heq]
    refine (Noting.Ensures.trivial _).bind_of_mono fun value noted more _ name hname => ?_
    cases hname

end Context

/-! ### Leaves -/

/-- Whether a name is the text that a leaf is bound to, and the text is no path. -/
def Leaf.IsLoose (leaf : Leaf) (name : String) : Prop :=
  ∃ text, leaf.bind = some text ∧ Path.ofText? text = none ∧
    name = String.ofList (Text.trim text.toList)

/-- Whether a name is the text that a leaf outside of all iterations is bound to, and the text is no
path. -/
def Document.IsLoose (document : Document) (name : String) : Prop :=
  ∃ leaf, document.HasOuter leaf ∧ leaf.IsLoose name

/-- Whether a control of a leaf, if there is one, follows the place that it sets. -/
def Leaf.Binds (leaf : Leaf) (scope : Scope) (state : Store) (control : Option (Bound × String))
    (noted : List Dependency) : Prop :=
  ∀ bound name, control = some (bound, name) →
    bound.Binds state noted (fun name => scope.depth = 0 ∧ leaf.IsLoose name) name

theorem Leaf.binds_none (leaf : Leaf) (scope : Scope) (state : Store) (noted : List Dependency) :
    leaf.Binds scope state none noted := by
  intro bound name hcontrol
  cases hcontrol

theorem Leaf.Binds.mono {leaf : Leaf} {scope : Scope} {state : Store}
    {control : Option (Bound × String)} {noted : List Dependency}
    (h : leaf.Binds scope state control noted) (more : List Dependency) :
    leaf.Binds scope state control (noted ++ more) := by
  intro bound name hcontrol
  exact (h bound name hcontrol).imp (List.subset_append_left _ _) fun _ hloose => hloose

namespace Context

variable {ctx : Context} {scope : Scope} {state : Store}

theorem binds_controlValue (hscope : scope.Placed state) (htracks : ctx.tracks = true) (leaf : Leaf)
    (fallback : Value) :
    ((ctx.withScope scope).controlValue leaf fallback).Ensures state.get? fun shown noted =>
      leaf.Binds scope state (shown.2.map fun name => (shown.1, name)) noted := by
  rw [controlValue]
  cases hbind : leaf.bind with
  | some text =>
    refine (binds_boundPath hscope htracks text).bind_of_mono ?_
    intro bound noted more hbinds shown name hcontrol
    obtain ⟨target, htarget, heq⟩ := Option.map_eq_some_iff.1 hcontrol
    cases heq
    refine (hbinds name htarget).imp (List.subset_append_left _ _) ?_
    rintro name ⟨hdepth, hnone, rfl⟩
    exact ⟨hdepth, text, hbind, hnone, rfl⟩
  | none =>
    cases leaf.data with
    | some origin =>
      refine (Noting.Ensures.trivial _).bind_of_mono fun bound noted more _ => ?_
      exact leaf.binds_none scope state _
    | none => exact leaf.binds_none scope state _

/-- What is made of the value of a control and keeps it is bound as the value is. -/
theorem binds_of_controlValue {α : Type} (hscope : scope.Placed state) (htracks : ctx.tracks = true)
    (leaf : Leaf) (fallback : Value) (make : Bound × Option String → Noting α)
    (control : α → Option (Bound × String))
    (hmake : ∀ shown, control ((make shown).outcome state.get?).result =
      shown.2.map fun name => (shown.1, name)) :
    ((ctx.withScope scope).controlValue leaf fallback >>= make).Ensures state.get?
      fun made noted => leaf.Binds scope state (control made) noted := by
  refine (binds_controlValue hscope htracks leaf fallback).bind_of_mono ?_
  intro shown noted more hbinds
  rw [hmake]
  exact hbinds.mono more

theorem binds_toggleView (hscope : scope.Placed state) (htracks : ctx.tracks = true) (leaf : Leaf) :
    ((ctx.withScope scope).toggleView leaf).Ensures state.get? fun view noted =>
      leaf.Binds scope state (ViewKind.toggle view).control? noted := by
  refine binds_of_controlValue hscope htracks leaf _ _ (fun view => (ViewKind.toggle view).control?)
    fun shown => ?_
  simp only [Noting.bind_eq, Noting.outcome_bind]
  rfl

theorem binds_sliderView (hscope : scope.Placed state) (htracks : ctx.tracks = true) (leaf : Leaf) :
    ((ctx.withScope scope).sliderView leaf).Ensures state.get? fun made noted =>
      leaf.Binds scope state ((made.map ViewKind.slider).toOption.bind ViewKind.control?)
        noted := by
  simp only [sliderView]
  split
  · exact leaf.binds_none scope state _
  · refine binds_of_controlValue hscope htracks leaf _ _ (fun made : Except Problem SliderView =>
      (made.map ViewKind.slider).toOption.bind ViewKind.control?) fun shown => ?_
    simp only [Noting.bind_eq, Noting.outcome_bind]
    rfl

theorem binds_textFieldView (hscope : scope.Placed state) (htracks : ctx.tracks = true)
    (leaf : Leaf) :
    ((ctx.withScope scope).textFieldView leaf).Ensures state.get? fun view noted =>
      leaf.Binds scope state (ViewKind.textField view).control? noted := by
  refine binds_of_controlValue hscope htracks leaf _ _
    (fun view => (ViewKind.textField view).control?) fun shown => ?_
  simp only [Noting.bind_eq, Noting.outcome_bind]
  rfl

end Context

/-- A kind that a rule makes of something else than a control has no place to set. -/
theorem Leaf.binds_of_map {α : Type} (leaf : Leaf) (scope : Scope) (state : Store)
    {x : Noting (Except Problem α)} {kind : α → ViewKind} (hkind : ∀ a, (kind a).control? = none) :
    (x >>= fun made : Except Problem α => pure (made.map kind)).Ensures state.get? fun made noted =>
      leaf.Binds scope state (made.toOption.bind ViewKind.control?) noted := by
  refine (Noting.Ensures.trivial x).bind_of_mono fun made noted more _ => ?_
  cases made with
  | error problem => exact leaf.binds_none scope state _
  | ok a =>
    have hnone : ((kind a).control? = none) := hkind a
    intro bound name hcontrol
    exact absurd (hnone.symm.trans hcontrol) (Option.some_ne_none _).symm

/-- The control that a leaf becomes by a rule follows the place that it sets, or is loose. -/
theorem LeafRule.binds_kindOf {ctx : Context} {scope : Scope} {state : Store}
    (hscope : scope.Placed state) (htracks : ctx.tracks = true) (rule : LeafRule) (leaf : Leaf) :
    (rule.kindOf (ctx.withScope scope) leaf).Ensures state.get? fun made noted =>
      leaf.Binds scope state (made.toOption.bind ViewKind.control?) noted := by
  cases rule with
  | toggle =>
    exact (Context.binds_toggleView hscope htracks leaf).bind_of_mono fun _ _ more h => h.mono more
  | slider =>
    exact (Context.binds_sliderView hscope htracks leaf).bind_of_mono fun _ _ more h => h.mono more
  | textField =>
    exact (Context.binds_textFieldView hscope htracks leaf).bind_of_mono fun _ _ more h =>
      h.mono more
  | image => exact leaf.binds_of_map scope state fun _ => rfl
  | gradient => exact leaf.binds_of_map scope state fun _ => rfl
  | shape => exact leaf.binds_of_map scope state fun _ => rfl
  | fatal error => exact leaf.binds_none scope state _
  | _ =>
    refine (Noting.Ensures.trivial _).bind_of_mono fun made noted more _ => ?_
    exact leaf.binds_none scope state _

namespace Rulebook

variable {rulebook : Rulebook} {document : Document} {state : Store}

/-- That the controls of a view follow the places that they set is a law of views. -/
theorem viewLaw_binds (rulebook : Rulebook) (document : Document) (state : Store) :
    ViewLaw rulebook.leaves (rulebook.context document) state.get? (document.Expands state)
      fun view noted => ∀ bound name, view.kind.control? = some (bound, name) →
        bound.Binds state noted document.IsLoose name where
  plain view noted hheld bound name hcontrol := by
    rw [ViewKind.control?_of_held_eq_nil hheld] at hcontrol
    cases hcontrol
  leaf scope leaf hexpands kind := by
    intro noted hkind id slot pending bound name hcontrol
    have hbinds : noted.result.toOption.bind ViewKind.control? = some (bound, name) := by
      rw [hkind]
      exact hcontrol
    have hrule : (rulebook.leaves.kindOf ((rulebook.context document).withScope scope) leaf).Ensures
        state.get? fun made noted =>
          leaf.Binds scope state (made.toOption.bind ViewKind.control?) noted := by
      rw [LeafRules.kindOf]
      cases Fields.get? rulebook.leaves.byName leaf.type with
      | none => exact leaf.binds_none scope state _
      | some rule => exact rule.binds_kindOf hexpands.placed rfl leaf
    refine (hrule bound name hbinds).imp (List.subset_append_right _ _) ?_
    rintro name ⟨hdepth, hloose⟩
    exact ⟨leaf, hexpands.hasOuter hdepth, hloose⟩

/-- A control of a tree follows the place that it sets, and the place is recorded for it. Or it is
loose. -/
theorem binds_of_build {tree : ViewTree} {index : DependencyIndex}
    (hbuild : rulebook.build document state true = .ok (tree, index)) {id : ViewId} {view : View}
    (hview : tree.arena.get? id = some view) {bound : Bound} {name : String}
    (hcontrol : view.kind.control? = some (bound, name)) :
    ∃ noted, bound.Binds state noted document.IsLoose name ∧
      ∀ d ∈ noted, d.path.firstKey?.isSome → ⟨id, d⟩ ∈ index.entries := by
  obtain ⟨noted, hbinds, hrecorded⟩ :=
    (viewLaw_binds rulebook document state).of_build hbuild hview
  exact ⟨noted, hbinds bound name hcontrol, hrecorded⟩

end Rulebook

end ScreenDoc
