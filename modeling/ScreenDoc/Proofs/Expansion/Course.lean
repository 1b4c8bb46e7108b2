import ScreenDoc.Proofs.Expansion.Compare
import ScreenDoc.Proofs.Expr.Within
import ScreenDoc.Proofs.Store.Unseen

/-!
# The expansion over two states

The expansion of a view is compared over two states, within scopes that mirror these states in the
same way. The two runs take the same course to values that come from the same places. Where the
states agree on all that the first run has noted, the values show the same.

## Main definitions

- `Comparison.course` — the comparison of where values come from
- `Comparison.quiet` — the comparison of what values show, where the states agree

## Main results

- `Context.notesAll_observe` — a context that tracks dependencies notes all that is asked for
- `Scope.Twins.value_eq` — twin scopes give the same results where the states agree
- `Comparison.course_basic`, `Comparison.quiet_basic` — the values of two contexts are related
-/

namespace ScreenDoc

/-! ### Observing -/

namespace Context

variable {α : Type} {ctx : Context}

theorem paths_observe (ctx : Context) (answers : Path → Option Value) (reading : Reading α) :
    Reading.paths answers (ctx.observe reading) = reading.paths answers := by
  have hbind := Reading.paths_bind answers reading.listen fun listened =>
    Reading.done (Noted.mk listened.1
      (ctx.tracked (listened.2.eraseDups.map fun path => ⟨path, .value⟩)) [])
  rw [Reading.paths, List.append_nil, Reading.paths_listen] at hbind
  exact hbind

theorem outcome_observe_eq (ctx : Context) (answers : Path → Option Value) (reading : Reading α) :
    (ctx.observe reading).outcome answers =
      ⟨reading.value answers,
        ctx.tracked ((reading.paths answers).eraseDups.map fun path => ⟨path, .value⟩), []⟩ := by
  have hbind := Reading.value_bind answers reading.listen fun listened =>
    Reading.done (Noted.mk listened.1
      (ctx.tracked (listened.2.eraseDups.map fun path => ⟨path, .value⟩)) [])
  rw [Reading.value_listen, Reading.value] at hbind
  exact hbind

theorem outcome_observe (htracks : ctx.tracks = true) (answers : Path → Option Value)
    (reading : Reading α) :
    (ctx.observe reading).outcome answers =
      ⟨reading.value answers,
        (reading.paths answers).eraseDups.map fun path => ⟨path, .value⟩, []⟩ := by
  rw [outcome_observe_eq, tracked, if_pos htracks]

theorem mem_dependencies_observe (htracks : ctx.tracks = true) {answers : Path → Option Value}
    {reading : Reading α} {path : Path} :
    ⟨path, .value⟩ ∈ ((ctx.observe reading).outcome answers).dependencies ↔
      path ∈ reading.paths answers := by
  rw [outcome_observe htracks]
  simp [List.mem_eraseDups]

/-- A context that tracks dependencies notes all that is asked for. -/
theorem notesAll_observe (htracks : ctx.tracks = true) (answers : Path → Option Value)
    (reading : Reading α) : (ctx.observe reading).NotesAll answers := by
  intro path hpath
  rw [paths_observe] at hpath
  exact ⟨.value, (mem_dependencies_observe htracks).2 hpath⟩

end Context

namespace Comparison

variable {α β : Type} {c : Comparison} {R : α → β → Prop} {ctx : Context}

/-- Two readings are observed alike if their results are related, provided that the first run only
asks for steady values. -/
theorem relates_observe (htracks : ctx.tracks = true) (scope scope' : Scope) {x : Reading α}
    {y : Reading β}
    (h : (∀ path ∈ x.paths c.before, c.steady ⟨path, .value⟩) →
      R (x.value c.before) (y.value c.after)) :
    c.Relates R ((ctx.withScope scope).observe x) ((ctx.withScope scope').observe y) := by
  have hbefore : (ctx.withScope scope).tracks = true := htracks
  have hafter : (ctx.withScope scope').tracks = true := htracks
  intro hsteady
  refine ⟨Context.notesAll_observe hbefore _ x, ?_, ?_⟩
  · rw [Context.outcome_observe hbefore, Context.outcome_observe hafter]
  · rw [Context.outcome_observe hbefore, Context.outcome_observe hafter]
    exact h fun path hpath => hsteady _ ((Context.mem_dependencies_observe hbefore).2 hpath)

/-! ### Values of two contexts -/

/-- What a comparison has to know of values that are read within two scopes. -/
structure Read (c : Comparison) (scope scope' : Scope) : Prop where
  literal : ∀ value, c.bound (.literal value) (.literal value)
  property : ∀ value, c.property value value
  path?_eq : ∀ {b b' : Bound}, c.bound b b' → b.path? = b'.path?
  /-- A template shows its text in each run. -/
  template : ∀ raw : String,
    (∀ path ∈ (Expr.fill scope raw.toList).paths c.before, c.steady ⟨path, .value⟩) →
      c.bound (.template raw (String.ofList ((Expr.fill scope raw.toList).value c.before)) scope)
        (.template raw (String.ofList ((Expr.fill scope' raw.toList).value c.after)) scope')
  /-- A path that stands for a place shows its value in each run. -/
  binding : ∀ path target : String,
    (∀ p ∈ (followPath scope path).paths c.before, c.steady ⟨p, .value⟩) →
      c.bound (.binding target ((followPath scope path).value c.before))
        (.binding target ((followPath scope' path).value c.after))
  /-- A path that stands for no place has a fixed value in each run. -/
  fixed : ∀ path : String,
    (∀ p ∈ (followPath scope path).paths c.before, c.steady ⟨p, .value⟩) →
      c.bound (.literal ((followPath scope path).value c.before))
        (.literal ((followPath scope' path).value c.after))
  /-- A property that is a template has its text in each run. -/
  fill : ∀ raw : String,
    (∀ path ∈ (Expr.fill scope raw.toList).paths c.before, c.steady ⟨path, .value⟩) →
      c.property (.string (String.ofList ((Expr.fill scope raw.toList).value c.before)))
        (.string (String.ofList ((Expr.fill scope' raw.toList).value c.after)))

namespace Read

variable {before after : Store} {scope scope' : Scope}

theorem relates_fill (htracks : ctx.tracks = true) (raw : String) {R : String → String → Prop}
    (h : (∀ path ∈ (Expr.fill scope raw.toList).paths c.before, c.steady ⟨path, .value⟩) →
      R (String.ofList ((Expr.fill scope raw.toList).value c.before))
        (String.ofList ((Expr.fill scope' raw.toList).value c.after))) :
    c.Relates R ((ctx.withScope scope).fill raw) ((ctx.withScope scope').fill raw) := by
  refine relates_observe htracks scope scope' fun hsteady => ?_
  rw [Reading.paths_bind, Reading.paths, List.append_nil] at hsteady
  rw [Reading.value_bind, Reading.value_bind, Reading.value, Reading.value]
  exact h hsteady

theorem relates_boundTemplate (h : c.Read scope scope') (htracks : ctx.tracks = true)
    (raw : String) :
    c.Relates c.bound ((ctx.withScope scope).boundTemplate raw)
      ((ctx.withScope scope').boundTemplate raw) := by
  unfold Context.boundTemplate
  split
  · refine (relates_fill (R := fun s t => c.bound (.template raw s scope) (.template raw t scope'))
      htracks raw (h.template raw)).bind fun text text' htext => ?_
    exact .done htext
  · exact .done (h.literal _)

omit c in
theorem bindingTarget?_eq (twins : Scope.Twins before after scope scope') (text : String) :
    (ctx.withScope scope).bindingTarget? text = (ctx.withScope scope').bindingTarget? text := by
  simp only [Context.bindingTarget?, Context.withScope]
  cases Path.ofText? text with
  | none => rfl
  | some path =>
    have hlookup := twins.lookup path
    simp only
    generalize scope.lookup path = found at hlookup ⊢
    generalize scope'.lookup path = found' at hlookup ⊢
    cases hlookup with
    | none => rfl
    | some hhit => exact congrArg (Option.map Path.text) hhit.source

theorem relates_boundPath (h : c.Read scope scope') (twins : Scope.Twins before after scope scope')
    (htracks : ctx.tracks = true) (raw : String) :
    c.Relates c.bound ((ctx.withScope scope).boundPath raw)
      ((ctx.withScope scope').boundPath raw) := by
  simp only [Context.boundPath]
  have hdepth : (ctx.withScope scope).scope.depth = (ctx.withScope scope').scope.depth :=
    twins.depth_eq
  generalize String.ofList (Text.trim raw.toList) = path
  rw [hdepth]
  split
  · exact h.relates_boundTemplate htracks _
  · rw [bindingTarget?_eq twins]
    cases (ctx.withScope scope').bindingTarget? path with
    | some target =>
      refine (relates_observe (R := fun v w => c.bound (.binding target v) (.binding target w))
        htracks scope scope' (h.binding path target)).bind fun value value' hvalue => ?_
      exact .done hvalue
    | none =>
      refine (relates_observe (R := fun v w => c.bound (.literal v) (.literal w))
        htracks scope scope' (h.fixed path)).bind fun value value' hvalue => ?_
      exact .done hvalue

theorem basic (h : c.Read scope scope') (twins : Scope.Twins before after scope scope')
    (htracks : ctx.tracks = true) : c.Basic (ctx.withScope scope) scope' where
  literal := h.literal
  property := h.property
  path?_eq := h.path?_eq
  template := h.relates_boundTemplate htracks
  path := h.relates_boundPath twins htracks
  fill raw := relates_fill htracks raw (h.fill raw)

end Read

end Comparison

/-! ### Twin scopes -/

theorem followPath_through {answer : Path → Reading (Option Value)} {scope scope' : Scope}
    (hread : ∀ text, (scope.read text).through answer = scope'.read text) (path : String) :
    (followPath scope path).through answer = followPath scope' path := by
  rw [followPath, followPath, Reading.through_bind, hread]
  congr 1
  funext value
  cases value with
  | some value => rfl
  | none =>
    simp only
    rw [Reading.through_bind, Expr.through_eval hread]
    congr 1
    funext value
    cases value <;> rfl

theorem followPath_eq_within (scope : Scope) (path : String) :
    followPath scope path = (followPath .empty path).within scope :=
  (followPath_through (Scope.read_within scope) path).symm

/-- Within a scope that mirrors the state, all questions lead into the state. -/
theorem Scope.Mirrors.rooted_of_mem_paths {α : Type} {scope : Scope} {store : Store}
    (h : scope.Mirrors store) {answers : Path → Option Value} {r : Reading α}
    (hr : r.through Reading.askRooted = r) {path : Path}
    (hpath : path ∈ (r.within scope).paths answers) : path.firstKey?.isSome := by
  rw [Reading.paths_within, List.mem_filterMap] at hpath
  obtain ⟨asked, hasked, hsource⟩ := hpath
  rw [← hr] at hasked
  have hlookup := (Twins.refl h).lookup asked
  rw [sourcePath] at hsource
  generalize scope.lookup asked = found at hlookup hsource
  cases hlookup with
  | none =>
    rw [← Option.some.inj hsource]
    exact Reading.rooted_of_mem_paths_through hasked
  | some hhit => exact hhit.rooted path hsource

/-- Twin scopes give the same results where the states agree on what is asked for. -/
theorem Scope.Twins.value_eq {α : Type} {before after : Store} {scope scope' : Scope}
    (h : Twins before after scope scope') (r : Reading α)
    (hagree : ∀ path ∈ (r.within scope).paths before.get?, before.get? path = after.get? path) :
    (r.within scope).value before.get? = (r.within scope').value after.get? := by
  rw [Reading.value_within, Reading.value_within]
  refine Reading.value_eq_of_agree r fun path hpath => ?_
  rw [Reading.paths_within] at hagree
  -- A path with a bound root is answered by the scopes, which mirror the states.
  have hlookup := h.lookup path
  have hsource : ∀ source, scope.sourcePath path = some source →
      before.get? source = after.get? source :=
    fun source hsource => hagree source (List.mem_filterMap.2 ⟨path, hpath, hsource⟩)
  rw [overlay, overlay]
  rw [sourcePath] at hsource
  generalize scope.lookup path = found at hlookup hsource ⊢
  generalize scope'.lookup path = found' at hlookup ⊢
  cases hlookup with
  | none => exact hsource path rfl
  | @some hit hit' hhit =>
    cases hplace : hit.source with
    | none => exact hhit.value hplace
    | some place =>
      have hequal := hsource place hplace
      rw [hhit.before place hplace, hhit.after place hplace] at hequal
      exact hequal

namespace Comparison

variable {before after : Store} {scope scope' : Scope} {ctx : Context}

/-- The comparison of where values come from. It counts on arrays of the same length. -/
def course (before after : Store) : Comparison where
  before := before.get?
  after := after.get?
  steady dependency :=
    dependency.kind = .shape → before.arraySize? dependency.path = after.arraySize? dependency.path
  bound b b' := b.face = b'.face
  property _ _ := True

/-- The comparison of what values show. It counts on values that are the same in both states. -/
def quiet (before after : Store) : Comparison where
  before := before.get?
  after := after.get?
  steady dependency :=
    dependency.kind = .value → before.get? dependency.path = after.get? dependency.path
  bound b b' := b.path? = b'.path? ∧ b.current = b'.current
  property := Eq

theorem course_read (twins : Scope.Twins before after scope scope') :
    (course before after).Read scope scope' where
  literal _ := rfl
  property _ := trivial
  path?_eq := Bound.path?_eq_of_face_eq
  template raw _ := congrArg (Bound.template raw "") twins.still
  binding _ target _ := Bound.face_binding target _ _
  fixed _ _ := Bound.face_literal _ _
  fill _ _ := trivial

theorem course_basic (twins : Scope.Twins before after scope scope') (htracks : ctx.tracks = true) :
    (course before after).Basic (ctx.withScope scope) scope' :=
  (course_read twins).basic twins htracks

theorem quiet_read (twins : Scope.Twins before after scope scope') :
    (quiet before after).Read scope scope' := by
  have hfill : ∀ raw : String,
      (∀ path ∈ (Expr.fill scope raw.toList).paths before.get?,
        (quiet before after).steady ⟨path, .value⟩) →
      (Expr.fill scope raw.toList).value before.get? =
        (Expr.fill scope' raw.toList).value after.get? := by
    intro raw hsteady
    rw [Expr.fill_eq_within scope] at hsteady ⊢
    rw [Expr.fill_eq_within scope']
    exact twins.value_eq _ fun path hpath => hsteady path hpath rfl
  have hfollow : ∀ text : String,
      (∀ path ∈ (followPath scope text).paths before.get?,
        (quiet before after).steady ⟨path, .value⟩) →
      (followPath scope text).value before.get? = (followPath scope' text).value after.get? := by
    intro text hsteady
    rw [followPath_eq_within scope] at hsteady ⊢
    rw [followPath_eq_within scope']
    exact twins.value_eq _ fun path hpath => hsteady path hpath rfl
  refine ⟨fun _ => ⟨rfl, rfl⟩, fun _ => rfl, fun h => h.1, ?_, ?_, ?_, ?_⟩
  · intro raw hsteady
    refine ⟨Bound.path?_template raw _ _ _ _, ?_⟩
    exact congrArg (fun text => Value.string (String.ofList text)) (hfill raw hsteady)
  · intro path target hsteady
    exact ⟨Bound.path?_binding target _ _, hfollow path hsteady⟩
  · intro path hsteady
    exact ⟨Bound.path?_literal _ _, hfollow path hsteady⟩
  · intro raw hsteady
    exact congrArg (fun text => Value.string (String.ofList text)) (hfill raw hsteady)

theorem quiet_basic (twins : Scope.Twins before after scope scope') (htracks : ctx.tracks = true) :
    (quiet before after).Basic (ctx.withScope scope) scope' :=
  (quiet_read twins).basic twins htracks

end Comparison

end ScreenDoc
