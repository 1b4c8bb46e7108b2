import ScreenDoc.Expansion.Rulebook
import ScreenDoc.Proofs.View.Held

/-!
# Two runs of the expansion of a view

What a leaf or a container becomes is computed twice, over two states and within two iteration
scopes. The document decides what is read, and the state only decides what the values show. So the
two runs take the same course, whatever the states are, and differ in their values alone.

## Main definitions

- `Comparison` — two states, with the relation between the values of the two runs
- `Comparison.Relates` — two runs of a computation take the same course
- `Comparison.Similar` — two views that differ in their bound values alone
- `Comparison.Basic` — the values of two contexts are related

## Main results

- `Comparison.Basic.kindOf` — the views that a leaf becomes in two contexts are similar

## Design notes

A comparison may count on something about the dependencies that the first run notes, for example
that the two states agree on them; these dependencies are called steady. `Comparison.Relates`
promises something only for a run of which all dependencies are steady.
-/

namespace ScreenDoc

/-- A result with the notes of an earlier one in front. -/
def Noted.after {α β : Type} (b : Noted β) (a : Noted α) : Noted β :=
  ⟨b.result, a.dependencies ++ b.dependencies, a.diagnostics ++ b.diagnostics⟩

namespace Noting

variable {α β : Type}

theorem bind_eq (x : Noting α) (f : α → Noting β) : x >>= f = x.bind f := rfl

theorem outcome_bind (answers : Path → Option Value) (x : Noting α) (f : α → Noting β) :
    (x.bind f).outcome answers =
      ((f (x.outcome answers).result).outcome answers).after (x.outcome answers) := by
  have hx := Reading.value_bind answers x fun a => Reading.bind (f a.result) fun b =>
    Reading.done (b.after a)
  exact hx.trans (Reading.value_bind answers (f (x.outcome answers).result) _)

theorem paths_bind (answers : Path → Option Value) (x : Noting α) (f : α → Noting β) :
    Reading.paths answers (x.bind f) =
      Reading.paths answers x ++ Reading.paths answers (f (x.outcome answers).result) := by
  have hx := Reading.paths_bind answers x fun a => Reading.bind (f a.result) fun b =>
    Reading.done (b.after a)
  have hf := Reading.paths_bind answers (f (x.outcome answers).result) fun b =>
    Reading.done (b.after (x.outcome answers))
  rw [Reading.paths, List.append_nil] at hf
  exact hx.trans (congrArg (Reading.paths answers x ++ ·) hf)

/-- Whether a computation notes all paths that it asks for. -/
def NotesAll (answers : Path → Option Value) (x : Noting α) : Prop :=
  ∀ path ∈ Reading.paths answers x, ∃ kind, ⟨path, kind⟩ ∈ (x.outcome answers).dependencies

end Noting

/-- Whether two outcomes are related results or the same failure. -/
inductive SameOutcome {α β : Type} (R : α → β → Prop) :
    Except Problem α → Except Problem β → Prop where
  | ok {a : α} {b : β} (h : R a b) : SameOutcome R (.ok a) (.ok b)
  | error (problem : Problem) : SameOutcome R (.error problem) (.error problem)

theorem SameOutcome.map {α β γ δ : Type} {R : α → β → Prop} {S : γ → δ → Prop}
    {x : Except Problem α} {y : Except Problem β} {f : α → γ} {g : β → δ} (h : SameOutcome R x y)
    (hf : ∀ a b, R a b → S (f a) (g b)) : SameOutcome S (x.map f) (y.map g) := by
  cases h with
  | ok hab => exact .ok (hf _ _ hab)
  | error problem => exact .error problem

namespace Context

/-- A context with another iteration scope. -/
def withScope (ctx : Context) (scope : Scope) : Context :=
  { ctx with scope }

end Context

/-- Two states, and how the values of two runs over them correspond. -/
structure Comparison where
  /-- The answers of the state in the first run. -/
  before : Path → Option Value
  /-- The answers of the state in the second run. -/
  after : Path → Option Value
  /-- The dependencies of the first run that the comparison may count on. -/
  steady : Dependency → Prop
  /-- How bound values correspond. -/
  bound : Bound → Bound → Prop
  /-- How the properties of a view that the host draws correspond. -/
  property : Value → Value → Prop

namespace Comparison

variable {α β γ δ : Type} (c : Comparison)

/-- Whether two runs take the same course to related results, provided that all dependencies of the
first one are steady. The first run then notes all paths that it asks for. -/
def Relates (R : α → β → Prop) (x : Noting α) (y : Noting β) : Prop :=
  (∀ d ∈ (x.outcome c.before).dependencies, c.steady d) →
    x.NotesAll c.before ∧
      (x.outcome c.before).diagnostics = (y.outcome c.after).diagnostics ∧
      R (x.outcome c.before).result (y.outcome c.after).result

variable {c} {R : α → β → Prop} {S : γ → δ → Prop}

namespace Relates

theorem done {a : α} {b : β} (h : R a b) : c.Relates R (pure a) (pure b) := by
  intro _
  refine ⟨?_, rfl, h⟩
  intro path hpath
  exact absurd hpath (List.not_mem_nil)

theorem bind {x : Noting α} {y : Noting β} {f : α → Noting γ} {g : β → Noting δ}
    (hx : c.Relates R x y) (hf : ∀ a b, R a b → c.Relates S (f a) (g b)) :
    c.Relates S (x >>= f) (y >>= g) := by
  rw [Noting.bind_eq, Noting.bind_eq]
  intro hsteady
  rw [Noting.outcome_bind] at hsteady
  obtain ⟨hxn, hxd, hxr⟩ := hx fun d hd => hsteady d (List.mem_append_left _ hd)
  obtain ⟨hfn, hfd, hfr⟩ := hf _ _ hxr fun d hd => hsteady d (List.mem_append_right _ hd)
  refine ⟨?_, ?_, ?_⟩
  · intro path hpath
    rw [Noting.outcome_bind]
    rcases List.mem_append.1 (x.paths_bind c.before f ▸ hpath) with hpath | hpath
    · obtain ⟨kind, hkind⟩ := hxn path hpath
      exact ⟨kind, List.mem_append_left _ hkind⟩
    · obtain ⟨kind, hkind⟩ := hfn path hpath
      exact ⟨kind, List.mem_append_right _ hkind⟩
  · rw [Noting.outcome_bind, Noting.outcome_bind, Noted.after, Noted.after, hxd, hfd]
  · rw [Noting.outcome_bind, Noting.outcome_bind]
    exact hfr

theorem diagnose (error : Problem) :
    c.Relates Eq (Noting.diagnose error) (Noting.diagnose error) := by
  intro _
  refine ⟨?_, rfl, rfl⟩
  intro path hpath
  exact absurd hpath (List.not_mem_nil)

end Relates

/-- Whether two views differ in their bound values alone, and these are related. -/
structure Similar (c : Comparison) (kind kind' : ViewKind) : Prop where
  frame : kind.frame = kind'.frame
  bounds : List.Forall₂ c.bound kind.bounds kind'.bounds
  overlooked : List.Forall₂ c.bound kind.overlooked kind'.overlooked
  properties : List.Forall₂ (fun p q => p.1 = q.1 ∧ c.property p.2 q.2)
    kind.properties kind'.properties

/-- A view without values is similar to itself. -/
theorem Similar.refl_of_held_eq_nil {kind : ViewKind} (hheld : kind.held = [])
    (hproperties : kind.properties = []) : c.Similar kind kind := by
  obtain ⟨hbounds, hoverlooked⟩ := List.append_eq_nil_iff.1 hheld
  refine ⟨rfl, ?_, ?_, ?_⟩
  · rw [hbounds]
    exact .nil
  · rw [hoverlooked]
    exact .nil
  · rw [hproperties]
    exact .nil

/-- Whether the values that two contexts give are related. The second context is the first one with
another iteration scope. -/
structure Basic (c : Comparison) (ctx : Context) (scope : Scope) : Prop where
  literal : ∀ value, c.bound (.literal value) (.literal value)
  property : ∀ value, c.property value value
  path?_eq : ∀ {b b' : Bound}, c.bound b b' → b.path? = b'.path?
  template : ∀ raw,
    c.Relates c.bound (ctx.boundTemplate raw) ((ctx.withScope scope).boundTemplate raw)
  path : ∀ raw, c.Relates c.bound (ctx.boundPath raw) ((ctx.withScope scope).boundPath raw)
  fill : ∀ raw, c.Relates (fun s t => c.property (.string s) (.string t))
    (ctx.fill raw) ((ctx.withScope scope).fill raw)

namespace Basic

variable {ctx : Context} {scope : Scope} (h : c.Basic ctx scope)

include h

/-! ### Values, styles and actions -/

theorem data (origin : DataOrigin) :
    c.Relates c.bound (ctx.data origin) ((ctx.withScope scope).data origin) := by
  cases origin with
  | static value => exact .done (h.literal value)
  | binding path template =>
    cases path with
    | some path => exact h.path path
    | none =>
      cases template with
      | some template => exact h.template template
      | none => exact .done (h.literal .null)
  | source id =>
    simp only [Context.data, Context.withScope]
    cases Fields.get? ctx.document.dataSources id with
    | none => exact (Relates.diagnose _).bind fun _ _ _ => .done (h.literal .null)
    | some source =>
      cases source with
      | static value => exact .done (h.literal value)
      | binding path => exact h.path path

theorem content (leaf : Leaf) :
    c.Relates c.bound (ctx.content leaf) ((ctx.withScope scope).content leaf) := by
  unfold Context.content
  cases leaf.data with
  | some origin => exact h.data origin
  | none =>
    cases leaf.text.or leaf.label with
    | some text => exact h.template text
    | none => exact .done (h.literal _)

omit h in
theorem effectiveStyle (id : Option String) (inline : Option StyleLayer) :
    c.Relates Eq (ctx.effectiveStyle id inline)
      ((ctx.withScope scope).effectiveStyle id inline) := by
  simp only [Context.effectiveStyle, Context.withScope]
  cases ctx.document.styles.effective ctx.limits.styles id inline with
  | ok style => exact .done rfl
  | error error => exact (Relates.diagnose _).bind fun _ _ _ => .done rfl

omit h in
theorem finalStyle (id : Option String) (inline : Option StyleLayer) (own : OwnProperties) :
    c.Relates Eq (ctx.finalStyle id inline own)
      ((ctx.withScope scope).finalStyle id inline own) :=
  (effectiveStyle id inline).bind fun _ _ hstyle => .done (by rw [hstyle])

omit h in
theorem leafStyle (leaf : Leaf) :
    c.Relates Eq (ctx.leafStyle leaf) ((ctx.withScope scope).leafStyle leaf) :=
  finalStyle leaf.styleId leaf.style (Context.ownProperties leaf)

omit h in
theorem boundAction (handler : Handler) :
    c.Relates Eq (ctx.boundAction handler) ((ctx.withScope scope).boundAction handler) := by
  cases handler with
  | named id =>
    show c.Relates Eq (ctx.boundAction (.named id)) (ctx.boundAction (.named id))
    by_cases hid : Fields.contains ctx.document.actions id = true
    · simp only [Context.boundAction, if_pos hid]
      exact .done rfl
    · simp only [Context.boundAction, if_neg hid]
      exact (Relates.diagnose _).bind fun _ _ _ => .done rfl
  | inline action =>
    simp only [Context.boundAction, Context.withScope]
    cases ctx.actions.ready ctx.document.actions ctx.limits.actions action with
    | ok action => exact .done rfl
    | error error => exact (Relates.diagnose _).bind fun _ _ _ => .done rfl

omit h in
theorem boundAction? (handler : Option Handler) :
    c.Relates Eq (ctx.boundAction? handler) ((ctx.withScope scope).boundAction? handler) := by
  cases handler with
  | none => exact .done rfl
  | some handler => exact (boundAction handler).bind fun _ _ h => .done (by rw [h])

omit h in
theorem optionalStyle (inline : Option StyleLayer) (own : OwnProperties) (id : Option String) :
    c.Relates Eq (ctx.optionalStyle inline own id)
      ((ctx.withScope scope).optionalStyle inline own id) := by
  cases id with
  | none => exact .done rfl
  | some id => exact (finalStyle (some id) inline own).bind fun _ _ h => .done (by rw [h])

theorem optionalText (text : Option String) :
    c.Relates (Option.Rel c.bound) (ctx.optionalText text)
      ((ctx.withScope scope).optionalText text) := by
  cases text with
  | none => exact .done .none
  | some text => exact (h.template text).bind fun _ _ htext => .done (.some htext)

/-! ### Leaves -/

theorem textView (leaf : Leaf) :
    c.Relates (fun v v' => c.Similar (.text v) (.text v'))
      (ctx.textView leaf) ((ctx.withScope scope).textView leaf) := by
  refine (h.content leaf).bind fun content content' hcontent => ?_
  refine (leafStyle leaf).bind fun style style' hstyle => ?_
  subst hstyle
  exact .done ⟨rfl, .cons hcontent .nil, .nil, .nil⟩

theorem imageOrigin? (leaf : Leaf) :
    c.Relates (fun o o' => o.map ImageOrigin.frame = o'.map ImageOrigin.frame ∧
        List.Forall₂ c.bound (o.toList.flatMap ImageOrigin.bounds)
          (o'.toList.flatMap ImageOrigin.bounds))
      (ctx.imageOrigin? leaf) ((ctx.withScope scope).imageOrigin? leaf) := by
  unfold Context.imageOrigin?
  cases leaf.property? "image" WrittenImage.ofJson? with
  | none => exact .done ⟨rfl, .nil⟩
  | some image =>
    cases image with
    | asset name => exact .done ⟨rfl, .nil⟩
    | system name => exact .done ⟨rfl, .nil⟩
    | url address =>
      refine (h.template address).bind fun bound bound' hbound => ?_
      exact .done ⟨rfl, .cons hbound .nil⟩

theorem selection? (leaf : Leaf) :
    c.Relates (Option.Rel c.bound) (ctx.selection? leaf)
      ((ctx.withScope scope).selection? leaf) := by
  unfold Context.selection?
  cases leaf.property? "isSelected" Json.string? with
  | none => exact .done .none
  | some path => exact (h.path path).bind fun _ _ hbound => .done (.some hbound)

theorem buttonView (leaf : Leaf) :
    c.Relates (fun v v' => c.Similar (.button v) (.button v'))
      (ctx.buttonView leaf) ((ctx.withScope scope).buttonView leaf) := by
  refine (finalStyle _ _ _).bind fun style style' hstyle => ?_
  refine (optionalStyle _ _ _).bind fun selected selected' hselected => ?_
  refine (optionalStyle _ _ _).bind fun disabled disabled' hdisabled => ?_
  refine (h.selection? leaf).bind fun isSelected isSelected' hisSelected => ?_
  refine (h.content leaf).bind fun label label' hlabel => ?_
  refine (h.imageOrigin? leaf).bind fun image image' himage => ?_
  refine (boundAction? leaf.actions.onTap).bind fun onTap onTap' honTap => ?_
  subst hstyle hselected hdisabled honTap
  obtain ⟨hframe, hbounds⟩ := himage
  refine .done ⟨?_, ?_, hbounds, .nil⟩
  · cases hisSelected <;> simp only [ViewKind.frame, hframe, Option.map_none, Option.map_some]
  · cases hisSelected with
    | none => exact .cons hlabel .nil
    | some hbound => exact .cons hlabel (.cons hbound .nil)

theorem imageView (leaf : Leaf) :
    c.Relates (SameOutcome fun v v' => c.Similar (.image v) (.image v'))
      (ctx.imageView leaf) ((ctx.withScope scope).imageView leaf) := by
  refine (h.imageOrigin? leaf).bind fun origin origin' horigin => ?_
  obtain ⟨hframe, hbounds⟩ := horigin
  cases origin with
  | some origin =>
    cases origin' with
    | none => cases hframe
    | some origin' =>
      rw [Option.map_some, Option.map_some, Option.some.injEq] at hframe
      refine (leafStyle leaf).bind fun style style' hstyle => ?_
      subst hstyle
      refine .done (.ok ⟨?_, ?_, .nil, .nil⟩)
      · simp only [ViewKind.frame, hframe]
      · simpa only [ViewKind.bounds, Option.toList_some, List.flatMap_singleton] using hbounds
  | none =>
    cases origin' with
    | some origin' => cases hframe
    | none =>
      cases hdata : leaf.data with
      | none =>
        simp only
        exact .done (.error _)
      | some data =>
        simp only
        refine (h.data data).bind fun address address' haddress => ?_
        refine (leafStyle leaf).bind fun style style' hstyle => ?_
        subst hstyle
        exact .done (.ok ⟨rfl, .cons haddress .nil, .nil, .nil⟩)

omit h in
theorem gradientView (leaf : Leaf) :
    c.Relates (SameOutcome Eq) (ctx.gradientView leaf)
      ((ctx.withScope scope).gradientView leaf) := by
  simp only [Context.gradientView]
  split
  · exact .done (.error _)
  · refine (leafStyle leaf).bind fun style style' hstyle => ?_
    exact .done (.ok (by rw [hstyle]))

theorem controlValue (leaf : Leaf) (fallback : Value) :
    c.Relates (fun v v' => c.bound v.1 v'.1 ∧ v.2 = v'.2)
      (ctx.controlValue leaf fallback) ((ctx.withScope scope).controlValue leaf fallback) := by
  simp only [Context.controlValue]
  cases leaf.bind with
  | some path => exact (h.path path).bind fun _ _ hvalue => .done ⟨hvalue, h.path?_eq hvalue⟩
  | none =>
    cases leaf.data with
    | some origin => exact (h.data origin).bind fun _ _ hvalue => .done ⟨hvalue, rfl⟩
    | none => exact .done ⟨h.literal fallback, rfl⟩

theorem toggleView (leaf : Leaf) :
    c.Relates (fun v v' => c.Similar (.toggle v) (.toggle v'))
      (ctx.toggleView leaf) ((ctx.withScope scope).toggleView leaf) := by
  refine (h.controlValue leaf _).bind fun value value' hvalue => ?_
  refine (h.optionalText _).bind fun label label' hlabel => ?_
  refine (leafStyle leaf).bind fun style style' hstyle => ?_
  refine (boundAction? _).bind fun action action' haction => ?_
  obtain ⟨isOn, bind⟩ := value
  obtain ⟨isOn', bind'⟩ := value'
  obtain ⟨hisOn, hbind⟩ := hvalue
  obtain rfl : bind = bind' := hbind
  subst hstyle haction
  refine .done ⟨?_, ?_, .nil, .nil⟩
  · cases hlabel <;> rfl
  · cases hlabel with
    | none => exact .cons hisOn .nil
    | some hbound => exact .cons hisOn (.cons hbound .nil)

theorem sliderView (leaf : Leaf) :
    c.Relates (SameOutcome fun v v' => c.Similar (.slider v) (.slider v'))
      (ctx.sliderView leaf) ((ctx.withScope scope).sliderView leaf) := by
  simp only [Context.sliderView]
  split
  · exact .done (.error _)
  · refine (h.controlValue leaf _).bind fun value value' hvalue => ?_
    refine (leafStyle leaf).bind fun style style' hstyle => ?_
    refine (boundAction? _).bind fun action action' haction => ?_
    obtain ⟨shown, bind⟩ := value
    obtain ⟨shown', bind'⟩ := value'
    obtain ⟨hshown, hbind⟩ := hvalue
    obtain rfl : bind = bind' := hbind
    subst hstyle haction
    exact .done (.ok ⟨rfl, .cons hshown .nil, .nil, .nil⟩)

theorem textFieldView (leaf : Leaf) :
    c.Relates (fun v v' => c.Similar (.textField v) (.textField v'))
      (ctx.textFieldView leaf) ((ctx.withScope scope).textFieldView leaf) := by
  refine (h.controlValue leaf _).bind fun value value' hvalue => ?_
  refine (leafStyle leaf).bind fun style style' hstyle => ?_
  refine (boundAction? _).bind fun action action' haction => ?_
  obtain ⟨shown, bind⟩ := value
  obtain ⟨shown', bind'⟩ := value'
  obtain ⟨hshown, hbind⟩ := hvalue
  obtain rfl : bind = bind' := hbind
  subst hstyle haction
  exact .done ⟨rfl, .cons hshown .nil, .nil, .nil⟩

omit h in
theorem shapeView (leaf : Leaf) :
    c.Relates (SameOutcome Eq) (ctx.shapeView leaf) ((ctx.withScope scope).shapeView leaf) := by
  simp only [Context.shapeView]
  cases Context.shapeForm leaf with
  | error error => exact .done (.error error)
  | ok shape =>
    refine (leafStyle leaf).bind fun style style' hstyle => ?_
    exact .done (.ok (by rw [hstyle]))

omit h in
theorem dividerView (leaf : Leaf) :
    c.Relates Eq (ctx.dividerView leaf) ((ctx.withScope scope).dividerView leaf) :=
  (leafStyle leaf).bind fun _ _ hstyle => .done (by rw [hstyle])

theorem customProperty (value : Value) :
    c.Relates c.property (ctx.customProperty value)
      ((ctx.withScope scope).customProperty value) := by
  cases value with
  | string s =>
    simp only [Context.customProperty]
    split
    · exact (h.fill s).bind fun _ _ htext => .done htext
    · exact .done (h.property _)
  | _ => exact .done (h.property _)

theorem customProperties (properties : List (String × Value)) :
    c.Relates (List.Forall₂ fun p q => p.1 = q.1 ∧ c.property p.2 q.2)
      (ctx.customProperties properties) ((ctx.withScope scope).customProperties properties) := by
  induction properties with
  | nil => exact .done .nil
  | cons property rest ih =>
    obtain ⟨name, value⟩ := property
    refine (h.customProperty value).bind fun value value' hvalue => ?_
    exact ih.bind fun rest rest' hrest => .done (.cons ⟨rfl, hvalue⟩ hrest)

theorem customView (leaf : Leaf) :
    c.Relates (fun v v' => c.Similar (.custom v) (.custom v'))
      (ctx.customView leaf) ((ctx.withScope scope).customView leaf) := by
  refine (h.customProperties leaf.properties).bind fun properties properties' hproperties => ?_
  refine (leafStyle leaf).bind fun style style' hstyle => ?_
  subst hstyle
  exact .done ⟨rfl, .nil, .nil, hproperties⟩

/-! ### Leaves and containers -/

/-- The views that a leaf becomes in two contexts are similar. -/
theorem kindOfRule (rule : LeafRule) (leaf : Leaf) :
    c.Relates (SameOutcome c.Similar) (rule.kindOf ctx leaf)
      (rule.kindOf (ctx.withScope scope) leaf) := by
  have fixed : ∀ kind : ViewKind, kind.held = [] → kind.properties = [] → c.Similar kind kind :=
    fun _ => Similar.refl_of_held_eq_nil
  cases rule with
  | text => exact (h.textView leaf).bind fun _ _ hview => .done (.ok hview)
  | button => exact (h.buttonView leaf).bind fun _ _ hview => .done (.ok hview)
  | image => exact (h.imageView leaf).bind fun _ _ hview => .done (hview.map fun _ _ h => h)
  | gradient =>
    refine (gradientView leaf).bind fun view view' hview => .done (hview.map ?_)
    rintro view _ rfl
    exact fixed (.gradient view) rfl rfl
  | toggle => exact (h.toggleView leaf).bind fun _ _ hview => .done (.ok hview)
  | slider => exact (h.sliderView leaf).bind fun _ _ hview => .done (hview.map fun _ _ h => h)
  | textField => exact (h.textFieldView leaf).bind fun _ _ hview => .done (.ok hview)
  | shape =>
    refine (shapeView leaf).bind fun view view' hview => .done (hview.map ?_)
    rintro view _ rfl
    exact fixed (.shape view) rfl rfl
  | divider =>
    refine (dividerView leaf).bind fun view view' hview => .done (.ok ?_)
    subst hview
    exact fixed (.divider view) rfl rfl
  | custom => exact (h.customView leaf).bind fun _ _ hview => .done (.ok hview)
  | fatal error => exact .done (.error error)

theorem kindOf (leaves : LeafRules) (leaf : Leaf) :
    c.Relates (SameOutcome c.Similar) (leaves.kindOf ctx leaf)
      (leaves.kindOf (ctx.withScope scope) leaf) := by
  unfold LeafRules.kindOf
  cases Fields.get? leaves.byName leaf.type with
  | some rule => exact h.kindOfRule rule leaf
  | none => exact .done (.ok (Similar.refl_of_held_eq_nil rfl rfl))

omit h

theorem containerKind (settings : ContainerSettings) :
    c.Relates c.Similar (ctx.containerKind settings)
      ((ctx.withScope scope).containerKind settings) := by
  refine (finalStyle _ _ _).bind fun style style' hstyle => ?_
  subst hstyle
  exact .done (Similar.refl_of_held_eq_nil rfl rfl)

theorem iterationKind (settings : ForEachSettings) :
    c.Relates c.Similar (ctx.iterationKind settings)
      ((ctx.withScope scope).iterationKind settings) := by
  refine (finalStyle _ _ _).bind fun style style' hstyle => ?_
  subst hstyle
  exact .done (Similar.refl_of_held_eq_nil rfl rfl)

theorem screen (root : Root) :
    c.Relates Eq (ctx.screen root) ((ctx.withScope scope).screen root) := by
  refine (effectiveStyle _ _).bind fun style style' hstyle => ?_
  refine (boundAction? _).bind fun onAppear onAppear' honAppear => ?_
  refine (boundAction? _).bind fun onDisappear onDisappear' honDisappear => ?_
  subst hstyle honAppear honDisappear
  exact .done rfl

end Basic

end Comparison

end ScreenDoc
