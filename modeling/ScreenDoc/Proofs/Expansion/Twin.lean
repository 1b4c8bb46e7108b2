import ScreenDoc.Proofs.Expansion.Course

/-!
# The layout over two states

The layout of a document is expanded over two states. As long as the arrays that shape it have the
same lengths in both, it has the same views in the same places, and these differ in their values
alone.

## Main definitions

- `Expanding.Runs` — a computation succeeds, with what it asks for on the way
- `Rendered.records` — the dependencies of a view and of all views below it
- `Node.Iterates` — all iterations of a node run over arrays of a certain kind
- `Rendered.Alike` — two expansions with related views in the same places

## Main results

- `Comparison.Setting.expand_alike` — the expansion of nodes and sections over two states

## Design notes

The recursion of `Node.expand` on the number of levels is also the induction of its proofs. What one
level does is inverted by `Expanding.runs_bind`, so that no proof looks into the questions of a
computation.
-/

namespace ScreenDoc

/-! ### Runs -/

namespace Expanding

variable {α β : Type}

/-- Whether a computation succeeds with a result, and which paths it asks for. -/
def Runs (answers : Path → Option Value) (x : Expanding α) (outcome : Diagnosed α)
    (paths : List Path) : Prop :=
  Reading.value answers x = .ok outcome ∧ Reading.paths answers x = paths

variable {answers : Path → Option Value}

theorem runs_done {a : α} {outcome : Diagnosed α} {paths : List Path} :
    (pure a : Expanding α).Runs answers outcome paths ↔ outcome = ⟨a, []⟩ ∧ paths = [] := by
  constructor
  · rintro ⟨hvalue, hpaths⟩
    cases hvalue
    cases hpaths
    exact ⟨rfl, rfl⟩
  · rintro ⟨rfl, rfl⟩
    exact ⟨rfl, rfl⟩

theorem runs_fail {error : Problem} {outcome : Diagnosed α} {paths : List Path} :
    ¬ (fail error : Expanding α).Runs answers outcome paths := by
  rintro ⟨hvalue, -⟩
  cases hvalue

theorem runs_diagnose {error : Problem} {outcome : Diagnosed Unit} {paths : List Path} :
    (diagnose error).Runs answers outcome paths ↔ outcome = ⟨(), [error]⟩ ∧ paths = [] := by
  constructor
  · rintro ⟨hvalue, hpaths⟩
    cases hvalue
    cases hpaths
    exact ⟨rfl, rfl⟩
  · rintro ⟨rfl, rfl⟩
    exact ⟨rfl, rfl⟩

theorem value_bind (x : Expanding α) (f : α → Expanding β) :
    Reading.value answers (x >>= f : Expanding β) =
      match (Reading.value answers x : Except Problem (Diagnosed α)) with
      | .error error => .error error
      | .ok a =>
        match (Reading.value answers (f a.result) : Except Problem (Diagnosed β)) with
        | .error error => .error error
        | .ok b => .ok ⟨b.result, a.diagnostics ++ b.diagnostics⟩ := by
  refine (Reading.value_bind answers x _).trans ?_
  cases Reading.value answers x with
  | error error => rfl
  | ok a =>
    refine (Reading.value_bind answers (f a.result) _).trans ?_
    simp only
    cases Reading.value answers (f a.result) <;> rfl

theorem paths_bind {x : Expanding α} {a : Diagnosed α} (f : α → Expanding β)
    (h : Reading.value answers x = .ok a) :
    Reading.paths answers (x >>= f : Expanding β) =
      Reading.paths answers x ++ Reading.paths answers (f a.result) := by
  refine (Reading.paths_bind answers x _).trans (congrArg (Reading.paths answers x ++ ·) ?_)
  rw [h]
  refine (Reading.paths_bind answers (f a.result) _).trans ?_
  cases Reading.value answers (f a.result) <;> exact List.append_nil _

/-- One computation after another succeeds if both do. -/
theorem runs_bind {x : Expanding α} {f : α → Expanding β} {outcome : Diagnosed β}
    {paths : List Path} :
    (x >>= f).Runs answers outcome paths ↔
      ∃ a first b rest, x.Runs answers a first ∧ (f a.result).Runs answers b rest ∧
        outcome = ⟨b.result, a.diagnostics ++ b.diagnostics⟩ ∧ paths = first ++ rest := by
  constructor
  · rintro ⟨hvalue, hpaths⟩
    rw [value_bind] at hvalue
    split at hvalue
    · cases hvalue
    · next a hx =>
      split at hvalue
      · cases hvalue
      · next b hf =>
        cases hvalue
        exact ⟨a, _, b, _, ⟨hx, rfl⟩, ⟨hf, rfl⟩, rfl, by rw [← hpaths, paths_bind f hx]⟩
  · rintro ⟨a, first, b, rest, ⟨hx, hfirst⟩, ⟨hf, hrest⟩, rfl, rfl⟩
    refine ⟨?_, ?_⟩
    · rw [value_bind, hx]
      simp only [hf]
    · rw [paths_bind f hx, hfirst, hrest]

theorem runs_ofNoting {x : Noting α} {outcome : Diagnosed (α × List Dependency)}
    {paths : List Path} :
    (ofNoting x).Runs answers outcome paths ↔
      outcome = ⟨((x.outcome answers).result, (x.outcome answers).dependencies),
        (x.outcome answers).diagnostics⟩ ∧ paths = Reading.paths answers x := by
  have hvalue := Reading.value_bind answers x fun noted =>
    Reading.done (Except.ok (ε := Problem)
      (Diagnosed.mk (noted.result, noted.dependencies) noted.diagnostics))
  have hpaths := Reading.paths_bind answers x fun noted =>
    Reading.done (Except.ok (ε := Problem)
      (Diagnosed.mk (noted.result, noted.dependencies) noted.diagnostics))
  rw [Reading.paths, List.append_nil] at hpaths
  constructor
  · rintro ⟨h, rfl⟩
    exact ⟨(Except.ok.inj (hvalue.symm.trans h)).symm, hpaths⟩
  · rintro ⟨rfl, rfl⟩
    exact ⟨hvalue, hpaths⟩

end Expanding

/-! ### Computations that succeed together -/

namespace Comparison

variable {α β γ δ : Type}

/-- Whether the second of two computations succeeds with a related result and the same problems
where the first one does, provided that all that the first one records is steady. The first one then
records all paths that it asks for. -/
def Leads (c : Comparison) (records : α → List Dependency) (R : α → β → Prop) (x : Expanding α)
    (y : Expanding β) : Prop :=
  ∀ outcome paths, x.Runs c.before outcome paths →
    (∀ d ∈ records outcome.result, c.steady d) →
      (∀ path ∈ paths, ∃ kind, ⟨path, kind⟩ ∈ records outcome.result) ∧
        ∃ b paths', y.Runs c.after ⟨b, outcome.diagnostics⟩ paths' ∧ R outcome.result b

namespace Leads

variable {c e : Comparison} {R : α → β → Prop} {S : γ → δ → Prop}
  {records : α → List Dependency} {records' : γ → List Dependency}

theorem done {a : α} {b : β} (h : R a b) : c.Leads records R (pure a) (pure b) := by
  intro outcome paths hruns _
  obtain ⟨rfl, rfl⟩ := Expanding.runs_done.1 hruns
  refine ⟨?_, b, [], Expanding.runs_done.2 ⟨rfl, rfl⟩, h⟩
  intro path hpath
  exact absurd hpath List.not_mem_nil

theorem fail {error error' : Problem} :
    c.Leads records R (Expanding.fail error) (Expanding.fail error') := by
  intro outcome paths hruns
  exact absurd hruns Expanding.runs_fail

theorem diagnose (error : Problem) :
    c.Leads (fun _ => []) (fun _ _ => True) (Expanding.diagnose error)
      (Expanding.diagnose error) := by
  intro outcome paths hruns _
  obtain ⟨rfl, rfl⟩ := Expanding.runs_diagnose.1 hruns
  refine ⟨?_, (), [], Expanding.runs_diagnose.2 ⟨rfl, rfl⟩, trivial⟩
  intro path hpath
  exact absurd hpath List.not_mem_nil

/-- What the first computation records has to be part of what both record. -/
theorem bind {x : Expanding α} {y : Expanding β} {f : α → Expanding γ} {g : β → Expanding δ}
    (hx : c.Leads records R x y) (hf : ∀ a b, R a b → c.Leads records' S (f a) (g b))
    (hrecords : ∀ a outcome paths, (f a).Runs c.before outcome paths →
      records a ⊆ records' outcome.result) :
    c.Leads records' S (x >>= f) (y >>= g) := by
  intro outcome paths hruns hsteady
  obtain ⟨a, first, d, rest, hxruns, hfruns, rfl, rfl⟩ := Expanding.runs_bind.1 hruns
  have hsub := hrecords _ _ _ hfruns
  obtain ⟨hxnotes, b, ypaths, hyruns, hab⟩ := hx a first hxruns fun dep hdep =>
    hsteady dep (hsub hdep)
  obtain ⟨hfnotes, b', gpaths, hgruns, hdb⟩ := hf _ _ hab d rest hfruns hsteady
  refine ⟨?_, b', ypaths ++ gpaths,
    Expanding.runs_bind.2 ⟨_, _, _, _, hyruns, hgruns, rfl, rfl⟩, hdb⟩
  intro path hpath
  rcases List.mem_append.1 hpath with hpath | hpath
  · obtain ⟨kind, hkind⟩ := hxnotes path hpath
    exact ⟨kind, hsub hkind⟩
  · exact hfnotes path hpath

/-- A computation that cannot fail, where another comparison of the same runs may say more. -/
theorem ofNoting {x : Noting α} {y : Noting β} {R' : α → β → Prop} (hc : c.Relates R x y)
    (he : e.Relates R' x y) (hbefore : e.before = c.before) (hafter : e.after = c.after) :
    c.Leads Prod.snd (fun p q => R p.1 q.1 ∧ ((∀ d ∈ p.2, e.steady d) → R' p.1 q.1))
      (Expanding.ofNoting x) (Expanding.ofNoting y) := by
  intro outcome paths hruns hsteady
  obtain ⟨rfl, rfl⟩ := Expanding.runs_ofNoting.1 hruns
  obtain ⟨hnotes, hdiagnostics, hR⟩ := hc hsteady
  refine ⟨hnotes, ((y.outcome c.after).result, (y.outcome c.after).dependencies), _,
    Expanding.runs_ofNoting.2 ⟨?_, rfl⟩, hR, ?_⟩
  · exact congrArg (Diagnosed.mk _) hdiagnostics
  · intro hesteady
    rw [Relates, hbefore, hafter] at he
    exact (he hesteady).2.2

theorem traverse {f : α → Expanding γ} {g : β → Expanding δ} {as : List α} {bs : List β}
    (h : List.Forall₂ (fun a b => c.Leads records' S (f a) (g b)) as bs) :
    c.Leads (List.flatMap records') (List.Forall₂ S) (Expanding.traverse f as)
      (Expanding.traverse g bs) := by
  induction h with
  | nil => exact done .nil
  | cons hab _ ih =>
    refine bind hab (fun d d' hd => bind ih (fun ds ds' hds => done (.cons hd hds)) ?_) ?_
    · intro ds outcome paths hruns
      obtain ⟨rfl, -⟩ := Expanding.runs_done.1 hruns
      exact List.subset_append_right _ _
    · intro d outcome paths hruns
      obtain ⟨ds, _, _, _, -, hdone, rfl, -⟩ := Expanding.runs_bind.1 hruns
      obtain ⟨rfl, -⟩ := Expanding.runs_done.1 hdone
      exact List.subset_append_left _ _

end Leads

end Comparison

/-! ### Arrays -/

namespace Context

theorem length_itemsOf (value : Option Value) :
    (itemsOf value).length = ((value.bind Value.array?).map List.length).getD 0 := by
  rcases value with _ | value
  · rfl
  · cases value <;> rfl

theorem getElem?_itemsOf (value : Option Value) (i : Nat) :
    (itemsOf value)[i]? = value.bind (Value.lookup · [.index i]) := by
  rcases value with _ | value
  · rfl
  · rw [Option.bind_some, Value.lookup_index]
    cases value with
    | array items => simp [itemsOf]
    | _ => rfl

end Context

namespace Scope

/-- Whether the items of two arrays lie at the same place of two states, or are the same if they lie
at none. -/
structure TwinItems (before after : Store) (source : Option Path) (items items' : List Value) :
    Prop where
  length : items.length = items'.length
  value : source = none → items = items'
  rooted : ∀ array, source = some array → array.firstKey?.isSome
  before : ∀ array, source = some array → ∀ i : Nat,
    before.get? (array.index i) = items[i]?
  after : ∀ array, source = some array → ∀ i : Nat,
    after.get? (array.index i) = items'[i]?

variable {before after : Store} {scope scope' : Scope} {source : Option Path}
  {items items' : List Value}

/-- Arrays at the same place have twin items if they have the same length. -/
theorem TwinItems.ofPlace {array : Path} {value value' : Option Value}
    (hrooted : array.firstKey?.isSome) (hbefore : before.get? array = value)
    (hafter : after.get? array = value')
    (hsize : before.arraySize? array = after.arraySize? array) :
    TwinItems before after (some array) (Context.itemsOf value) (Context.itemsOf value') := by
  refine ⟨?_, ?_, ?_, ?_, ?_⟩
  · rw [Context.length_itemsOf, Context.length_itemsOf, ← hbefore, ← hafter]
    exact congrArg (Option.getD · 0) hsize
  · intro hnone
    cases hnone
  · rintro _ ⟨⟩
    exact hrooted
  · rintro _ ⟨⟩ i
    rw [Context.getElem?_itemsOf, ← hbefore]
    exact Store.get?_append ⟨[.index i]⟩ hrooted
  · rintro _ ⟨⟩ i
    rw [Context.getElem?_itemsOf, ← hafter]
    exact Store.get?_append ⟨[.index i]⟩ hrooted

theorem TwinItems.ofNowhere (items : List Value) :
    TwinItems before after none items items := by
  refine ⟨rfl, fun _ => rfl, ?_, ?_, ?_⟩
  all_goals
    intro array harray
    cases harray

/-- Twin scopes stay so within an iteration over twin items. -/
theorem Twins.push_itemFrame (h : Twins before after scope scope')
    (hitems : TwinItems before after source items items') (settings : ForEachSettings) {i : Nat}
    {item item' : Value} (hitem : items[i]? = some item) (hitem' : items'[i]? = some item') :
    Twins before after (scope.push (Context.itemFrame settings source item i))
      (scope'.push (Context.itemFrame settings source item' i)) := by
  have hfields : ∀ item : Value, ∀ field ∈ Context.itemFrame settings source item i,
      field = (settings.indexVariable, ⟨Value.ofNat i, none⟩) ∨
        field = (settings.itemVariable, ⟨item, source.map fun array => array.index i⟩) := by
    intro item field hfield
    refine (Fields.mem_insert hfield).imp_right fun hfield => ?_
    exact (Fields.mem_insert hfield).resolve_right List.not_mem_nil
  refine h.push ?_ ?_ ?_
  · intro field hfield place hplace
    rcases hfields item field hfield with rfl | rfl
    · cases hplace
    · obtain ⟨array, harray, rfl⟩ := Option.map_eq_some_iff.1 hplace
      exact ⟨Path.firstKey?_append ⟨[.index i]⟩ (hitems.rooted array harray),
        (hitems.before array harray i).trans hitem⟩
  · intro field hfield place hplace
    rcases hfields item' field hfield with rfl | rfl
    · cases hplace
    · obtain ⟨array, harray, rfl⟩ := Option.map_eq_some_iff.1 hplace
      exact ⟨Path.firstKey?_append ⟨[.index i]⟩ (hitems.rooted array harray),
        (hitems.after array harray i).trans hitem'⟩
  · have hmap : ∀ item : Value,
        (Context.itemFrame settings source item i).map (fun field => (field.1, field.2.still)) =
          Fields.insert (Fields.insert [] settings.itemVariable
              (Entry.still ⟨item, source.map fun array => array.index i⟩))
            settings.indexVariable ⟨Value.ofNat i, none⟩ := by
      intro item
      -- The index lies nowhere, so it is not changed when the values are left out.
      exact (Fields.map_insert Entry.still _ _ _).trans
        (congrArg (Fields.insert · _ _) (Fields.map_insert Entry.still [] _ _))
    rw [hmap, hmap]
    cases source with
    | some array => rfl
    | none =>
      -- An item that lies nowhere is the same in both arrays.
      have hsame : item = item' := by
        rw [← Option.some.injEq, ← hitem, ← hitem', hitems.value rfl]
      rw [hsame]

end Scope

namespace Comparison

variable {before after : Store} {scope scope' : Scope} {ctx : Context}

theorem relates_note {c : Comparison} (htracks : ctx.tracks = true) (path : Path)
    (kind : DependencyKind) :
    c.Relates (fun _ _ => c.steady ⟨path, kind⟩) ((ctx.withScope scope).note path kind)
      ((ctx.withScope scope').note path kind) := by
  intro hsteady
  refine ⟨?_, rfl, hsteady _ ?_⟩
  · intro asked hasked
    exact absurd hasked List.not_mem_nil
  · show (⟨path, kind⟩ : Dependency) ∈ ctx.tracked [⟨path, kind⟩]
    rw [Context.tracked, if_pos htracks]
    exact List.mem_singleton_self _

/-- An array that is asked for shapes the view. -/
theorem relates_askArray (htracks : ctx.tracks = true) {path : Path}
    (hrooted : path.firstKey?.isSome) :
    (course before after).Relates
      (fun p q => p.2 = q.2 ∧ Scope.TwinItems before after p.2 p.1 q.1)
      (Reading.ask path fun value => .done ⟨(Context.itemsOf value, some path),
        (ctx.withScope scope).tracked [⟨path, .shape⟩], []⟩)
      (Reading.ask path fun value => .done ⟨(Context.itemsOf value, some path),
        (ctx.withScope scope').tracked [⟨path, .shape⟩], []⟩) := by
  have hnoted : (⟨path, .shape⟩ : Dependency) ∈ ctx.tracked [⟨path, .shape⟩] := by
    rw [Context.tracked, if_pos htracks]
    exact List.mem_singleton_self _
  intro hsteady
  refine ⟨?_, rfl, rfl, .ofPlace hrooted rfl rfl (hsteady _ hnoted rfl)⟩
  intro asked hasked
  obtain rfl : asked = path := List.mem_singleton.1 hasked
  exact ⟨.shape, hnoted⟩

/-- The arrays of an iteration lie at the same place. -/
theorem course_itemsAt (twins : Scope.Twins before after scope scope') (htracks : ctx.tracks = true)
    {text : String} (hpath : (Path.ofText? text).isSome ∨ before = after) :
    (course before after).Relates
      (fun p q => p.2 = q.2 ∧ Scope.TwinItems before after p.2 p.1 q.1)
      ((ctx.withScope scope).itemsAt text) ((ctx.withScope scope').itemsAt text) := by
  simp only [Context.itemsAt]
  cases htext : Path.ofText? text with
  | none =>
    obtain rfl : before = after := hpath.resolve_left (by rw [htext]; exact Bool.false_ne_true)
    obtain rfl := twins.eq
    refine (relates_observe (R := Eq) htracks scope scope fun _ => rfl).bind
      fun value value' hvalue => ?_
    subst hvalue
    exact .done ⟨rfl, .ofNowhere _⟩
  | some path =>
    simp only
    have hrooted : path.firstKey?.isSome := Path.firstKey?_ofChars? htext
    have hlookup := twins.lookup path
    have hscope : ∀ scope, (ctx.withScope scope).scope.lookup path = scope.lookup path :=
      fun _ => rfl
    rw [hscope, hscope]
    generalize scope.lookup path = found at hlookup ⊢
    generalize scope'.lookup path = found' at hlookup ⊢
    cases hlookup with
    | none => exact relates_askArray htracks hrooted
    | @some hit hit' hhit =>
      obtain ⟨value, place⟩ := hit
      obtain ⟨value', place'⟩ := hit'
      obtain rfl : place = place' := hhit.source
      cases place with
      | none =>
        obtain rfl : value = value' := hhit.value rfl
        exact .done ⟨rfl, .ofNowhere _⟩
      | some array =>
        refine (relates_note htracks array .shape).bind fun _ _ hsteady => ?_
        exact .done ⟨rfl, .ofPlace (hhit.rooted array rfl) (hhit.before array rfl)
          (hhit.after array rfl) (hsteady rfl)⟩

end Comparison

/-! ### Views -/

mutual

/-- The dependencies of a view and of all views below it. -/
def Rendered.records : Rendered → List Dependency
  | .mk _ dependencies children => dependencies ++ Rendered.recordsOfAll children

/-- The dependencies of several views and of all views below them. -/
def Rendered.recordsOfAll : List Rendered → List Dependency
  | [] => []
  | first :: rest => first.records ++ Rendered.recordsOfAll rest

end

theorem Rendered.dependencies_subset_records (view : Rendered) :
    view.dependencies ⊆ view.records := by
  obtain ⟨view, dependencies, children⟩ := view
  exact List.subset_append_left _ _

theorem Rendered.recordsOfAll_eq (views : List Rendered) :
    Rendered.recordsOfAll views = views.flatMap Rendered.records := by
  induction views with
  | nil => rfl
  | cons first rest ih => rw [Rendered.recordsOfAll, ih, List.flatMap_cons]

mutual

/-- Whether all iterations of a node, as deep as it is expanded, run over arrays that are written in
a certain way. -/
def Node.Iterates (P : String → Prop) : Nat → Node → Prop
  | 0, _ => True
  | levels + 1, .container _ children => ∀ child ∈ children, Node.Iterates P levels child
  | levels + 1, .sectionLayout _ _ sections => ∀ s ∈ sections, Section.Iterates P levels s
  | levels + 1, .forEach settings template emptyView =>
    P settings.items ∧ Node.Iterates P levels template ∧
      ∀ view, emptyView = some view → Node.Iterates P levels view
  | _ + 1, .spacer _ => True
  | _ + 1, .component _ => True

/-- The same for a section. -/
def Section.Iterates (P : String → Prop) : Nat → Section → Prop
  | 0, _ => True
  | levels + 1, .mk _ _ header footer _ children =>
    (∀ view ∈ header.toList, Node.Iterates P levels view) ∧
      (∀ child ∈ children, Node.Iterates P levels child) ∧
      ∀ view ∈ footer.toList, Node.Iterates P levels view

end

mutual

/-- A condition that holds of every text holds of the arrays of all iterations. -/
theorem Node.iterates_of_forall {P : String → Prop} (h : ∀ text, P text) :
    (levels : Nat) → (node : Node) → node.Iterates P levels
  | 0, _ => by
    rw [Node.Iterates]
    trivial
  | levels + 1, .container _ children => by
    rw [Node.Iterates]
    exact fun child _ => Node.iterates_of_forall h levels child
  | levels + 1, .sectionLayout _ _ sections => by
    rw [Node.Iterates]
    exact fun s _ => Section.iterates_of_forall h levels s
  | levels + 1, .forEach settings template _ => by
    rw [Node.Iterates]
    exact ⟨h settings.items, Node.iterates_of_forall h levels template,
      fun view _ => Node.iterates_of_forall h levels view⟩
  | levels + 1, .spacer _ => by
    rw [Node.Iterates]
    trivial
  | levels + 1, .component _ => by
    rw [Node.Iterates]
    trivial

theorem Section.iterates_of_forall {P : String → Prop} (h : ∀ text, P text) :
    (levels : Nat) → (s : Section) → s.Iterates P levels
  | 0, _ => by
    rw [Section.Iterates]
    trivial
  | levels + 1, .mk _ _ header footer _ children => by
    rw [Section.Iterates]
    exact ⟨fun view _ => Node.iterates_of_forall h levels view,
      fun child _ => Node.iterates_of_forall h levels child,
      fun view _ => Node.iterates_of_forall h levels view⟩

end

theorem Node.iterates_component (P : String → Prop) (levels : Nat) (leaf : Leaf) :
    (Node.component leaf).Iterates P levels := by
  cases levels with
  | zero =>
    rw [Node.Iterates]
    trivial
  | succ levels =>
    rw [Node.Iterates]
    trivial

namespace Comparison

/-- Whether two views differ in their values alone. If all dependencies of the first one are steady,
another comparison may say more. -/
structure AlikeViews (c e : Comparison) (view : View) (dependencies : List Dependency)
    (view' : View) : Prop where
  id : view.id = view'.id
  slot : view.slot = view'.slot
  similar : c.Similar view.kind view'.kind
  steady : (∀ d ∈ dependencies, e.steady d) → e.Similar view.kind view'.kind

end Comparison

/-- Two expansions with related views in the same places. -/
inductive Rendered.Alike (Q : View → List Dependency → View → Prop) :
    Rendered → Rendered → Prop where
  | mk {view view' : View} {dependencies dependencies' : List Dependency}
    {children children' : List Rendered} (hview : Q view dependencies view')
    (hchildren : List.Forall₂ (Rendered.Alike Q) children children') :
    Rendered.Alike Q (.mk view dependencies children) (.mk view' dependencies' children')

/-! ### Nodes -/

section Nodes

variable {leaves : LeafRules} {answers : Path → Option Value}

/-- The pending dependencies go to the first view of a node. -/
theorem Node.pending_subset {levels : Nat} {ctx : Context} {pending : List Dependency} {slot : Slot}
    {node : Node} {outcome : Diagnosed Rendered} {paths : List Path}
    (h : (Node.expand leaves levels ctx pending slot node).Runs answers outcome paths) :
    pending ⊆ outcome.result.dependencies := by
  induction levels generalizing ctx pending slot node outcome paths with
  | zero =>
    rw [Node.expand] at h
    exact absurd h Expanding.runs_fail
  | succ levels ih =>
    cases node with
    | container settings children =>
      rw [Node.expand] at h
      obtain ⟨p, _, _, _, -, hrest, rfl, -⟩ := Expanding.runs_bind.1 h
      obtain ⟨children, _, _, _, -, hdone, rfl, -⟩ := Expanding.runs_bind.1 hrest
      obtain ⟨rfl, -⟩ := Expanding.runs_done.1 hdone
      exact List.subset_append_left _ _
    | sectionLayout id spacing sections =>
      rw [Node.expand] at h
      obtain ⟨children, _, _, _, -, hdone, rfl, -⟩ := Expanding.runs_bind.1 h
      obtain ⟨rfl, -⟩ := Expanding.runs_done.1 hdone
      exact List.Subset.refl _
    | forEach settings template emptyView =>
      rw [Node.expand] at h
      obtain ⟨p, _, _, _, -, hrest, rfl, -⟩ := Expanding.runs_bind.1 h
      simp only at hrest
      split at hrest
      · have hview := ih hrest
        exact List.Subset.trans (List.subset_append_left _ _) hview
      · obtain ⟨q, _, _, _, -, hkind, rfl, -⟩ := Expanding.runs_bind.1 hrest
        obtain ⟨children, _, _, _, -, hdone, rfl, -⟩ := Expanding.runs_bind.1 hkind
        obtain ⟨rfl, -⟩ := Expanding.runs_done.1 hdone
        exact List.Subset.trans (List.subset_append_left _ _) (List.subset_append_left _ _)
    | spacer space =>
      rw [Node.expand] at h
      obtain ⟨rfl, -⟩ := Expanding.runs_done.1 h
      exact List.Subset.refl _
    | component leaf =>
      rw [Node.expand] at h
      obtain ⟨p, _, _, _, -, hdone, rfl, -⟩ := Expanding.runs_bind.1 h
      obtain ⟨rfl, -⟩ := Expanding.runs_done.1 hdone
      exact List.subset_append_left _ _

end Nodes

namespace Comparison

/-- What is needed to compare two expansions: dependencies are tracked, iterations run over paths
unless the states are the same, and the second comparison is for the same states. -/
structure Setting (before after : Store) (ctx : Context) (P : String → Prop) (e : Comparison) :
    Prop where
  tracks : ctx.tracks = true
  iterates : ∀ text, P text → (Path.ofText? text).isSome ∨ before = after
  answersBefore : e.before = before.get?
  answersAfter : e.after = after.get?
  basic : ∀ scope scope', Scope.Twins before after scope scope' →
    e.Basic (ctx.withScope scope) scope'

variable {before after : Store} {ctx : Context} {P : String → Prop} {e : Comparison}

/-- The relation between the views of two expansions. -/
abbrev Views (before after : Store) (e : Comparison) : View → List Dependency → View → Prop :=
  AlikeViews (course before after) e

/-- The relation between the kinds of the views that two computations make. -/
def Kinds (before after : Store) (e : Comparison) (p q : ViewKind × List Dependency) : Prop :=
  (course before after).Similar p.1 q.1 ∧ ((∀ d ∈ p.2, e.steady d) → e.Similar p.1 q.1)

namespace Setting

variable {scope scope' : Scope}

theorem leads_ofNoting (h : Setting before after ctx P e) {x y : Noting ViewKind}
    (hc : (course before after).Relates (course before after).Similar x y)
    (he : e.Relates e.Similar x y) :
    (course before after).Leads Prod.snd (Kinds before after e) (Expanding.ofNoting x)
      (Expanding.ofNoting y) :=
  Leads.ofNoting hc he h.answersBefore h.answersAfter

theorem leafKind (h : Setting before after ctx P e)
    (twins : Scope.Twins before after scope scope') (leaves : LeafRules) (leaf : Leaf) :
    (course before after).Leads Prod.snd (Kinds before after e)
      ((ctx.withScope scope).leafKind leaves leaf)
      ((ctx.withScope scope').leafKind leaves leaf) := by
  refine Leads.bind (Leads.ofNoting ((course_basic twins h.tracks).kindOf leaves leaf)
    ((h.basic scope scope' twins).kindOf leaves leaf) h.answersBefore h.answersAfter) ?_ ?_
  · rintro ⟨outcome, dependencies⟩ ⟨outcome', dependencies'⟩ ⟨hcourse, hextra⟩
    cases hcourse with
    | @ok kind kind' hsimilar =>
      refine Leads.done ⟨hsimilar, fun hsteady => ?_⟩
      cases hextra hsteady with
      | ok hsame => exact hsame
    | error problem =>
      simp only
      split
      · exact Leads.fail
      · refine Leads.bind (Leads.diagnose problem) (fun _ _ _ => Leads.done ⟨?_, fun _ => ?_⟩) ?_
        · exact Similar.refl_of_held_eq_nil rfl rfl
        · exact Similar.refl_of_held_eq_nil rfl rfl
        · intro _ outcome paths _
          exact List.nil_subset _
  · rintro ⟨outcome, dependencies⟩ result paths hruns
    simp only at hruns
    split at hruns
    · obtain ⟨rfl, -⟩ := Expanding.runs_done.1 hruns
      exact List.Subset.refl _
    · split at hruns
      · exact absurd hruns Expanding.runs_fail
      · obtain ⟨_, _, _, _, -, hdone, rfl, -⟩ := Expanding.runs_bind.1 hruns
        obtain ⟨rfl, -⟩ := Expanding.runs_done.1 hdone
        exact List.Subset.refl _

/-- A view that two computations make, with the views below it. -/
theorem leads_view {dependencies dependencies' : List Dependency} {view view' : View}
    (hview : Views before after e view dependencies view') {x y : Expanding (List Rendered)}
    (hchildren : (course before after).Leads (List.flatMap Rendered.records)
      (List.Forall₂ (Rendered.Alike (Views before after e))) x y) :
    (course before after).Leads Rendered.records (Rendered.Alike (Views before after e))
      (x >>= fun children => pure (.mk view dependencies children))
      (y >>= fun children => pure (.mk view' dependencies' children)) := by
  refine hchildren.bind (fun children children' halike => Leads.done (.mk hview halike)) ?_
  intro children outcome paths hruns
  obtain ⟨rfl, -⟩ := Expanding.runs_done.1 hruns
  rw [Rendered.records, Rendered.recordsOfAll_eq]
  exact List.subset_append_right _ _

theorem subset_records_of_runs {answers : Path → Option Value} {view : View}
    {dependencies : List Dependency} {x : Expanding (List Rendered)} {outcome : Diagnosed Rendered}
    {paths : List Path}
    (hruns : (x >>= fun children => pure (.mk view dependencies children)).Runs answers outcome
      paths) : dependencies ⊆ outcome.result.records := by
  obtain ⟨children, _, _, _, -, hdone, rfl, -⟩ := Expanding.runs_bind.1 hruns
  obtain ⟨rfl, -⟩ := Expanding.runs_done.1 hdone
  exact List.subset_append_left _ _

theorem views_of_kinds {p q : ViewKind × List Dependency} (hkinds : Kinds before after e p q)
    (id : Option String) (slot : Slot) (pending : List Dependency) :
    Views before after e ⟨p.1, id, slot⟩ (pending ++ p.2) ⟨q.1, id, slot⟩ :=
  ⟨rfl, rfl, hkinds.1, fun hsteady => hkinds.2 fun d hd => hsteady d (List.mem_append_right _ hd)⟩

theorem views_of_held_eq_nil {kind : ViewKind} (hheld : kind.held = [])
    (hproperties : kind.properties = []) (id : Option String) (slot : Slot)
    (dependencies : List Dependency) :
    Views before after e ⟨kind, id, slot⟩ dependencies ⟨kind, id, slot⟩ :=
  ⟨rfl, rfl, .refl_of_held_eq_nil hheld hproperties,
    fun _ => .refl_of_held_eq_nil hheld hproperties⟩

/-- The views of an iteration, given what the next level does to its template. -/
theorem leads_iteration (h : Setting before after ctx P e) (settings : ForEachSettings)
    (slot : Slot) (pending pending' : List Dependency) {source : Option Path}
    {items items' : List Value} {expand : Scope → Expanding Rendered}
    (twins : Scope.Twins before after scope scope')
    (hitems : Scope.TwinItems before after source items items')
    (hexpand : ∀ scope scope', Scope.Twins before after scope scope' →
      (course before after).Leads Rendered.records (Rendered.Alike (Views before after e))
        (expand scope) (expand scope')) :
    (course before after).Leads Rendered.records (Rendered.Alike (Views before after e))
      (Expanding.ofNoting ((ctx.withScope scope).iterationKind settings) >>= fun p =>
        Expanding.traverse (fun (item, i) =>
          expand (scope.push (Context.itemFrame settings source item i))) items.zipIdx >>=
            fun children => pure (.mk ⟨p.1, settings.id, slot⟩ (pending ++ p.2) children))
      (Expanding.ofNoting ((ctx.withScope scope').iterationKind settings) >>= fun p =>
        Expanding.traverse (fun (item, i) =>
          expand (scope'.push (Context.itemFrame settings source item i))) items'.zipIdx >>=
            fun children => pure (.mk ⟨p.1, settings.id, slot⟩ (pending' ++ p.2) children)) := by
  refine Leads.bind (h.leads_ofNoting (Basic.iterationKind settings) (Basic.iterationKind settings))
    (fun p q hkinds => leads_view (views_of_kinds hkinds _ _ _) (Leads.traverse ?_)) ?_
  · refine List.forall₂_iff_get.2 ⟨?_, fun i hi hi' => ?_⟩
    · rw [List.length_zipIdx, List.length_zipIdx, hitems.length]
    · rw [List.length_zipIdx] at hi hi'
      simp only [List.get_eq_getElem, List.getElem_zipIdx, Nat.zero_add]
      exact hexpand _ _ (twins.push_itemFrame hitems settings (List.getElem?_eq_getElem hi)
        (List.getElem?_eq_getElem hi'))
  · intro p outcome paths hruns
    exact List.Subset.trans (List.subset_append_right _ _) (subset_records_of_runs hruns)

/-- Whether the nodes that are expanded down to a number of levels have related views in the same
places. -/
def NodesAlike (before after : Store) (ctx : Context) (P : String → Prop) (e : Comparison)
    (leaves : LeafRules) (levels : Nat) : Prop :=
  ∀ scope scope' pending pending' slot node, Scope.Twins before after scope scope' →
    Node.Iterates P levels node →
      (course before after).Leads Rendered.records (Rendered.Alike (Views before after e))
        (Node.expand leaves levels (ctx.withScope scope) pending slot node)
        (Node.expand leaves levels (ctx.withScope scope') pending' slot node)

/-- The same for sections. -/
def SectionsAlike (before after : Store) (ctx : Context) (P : String → Prop) (e : Comparison)
    (leaves : LeafRules) (levels : Nat) : Prop :=
  ∀ scope scope' s, Scope.Twins before after scope scope' → Section.Iterates P levels s →
    (course before after).Leads Rendered.records (Rendered.Alike (Views before after e))
      (Section.expand leaves levels (ctx.withScope scope) s)
      (Section.expand leaves levels (ctx.withScope scope') s)

section Levels

variable {leaves : LeafRules} {levels : Nat} {slot : Slot} {pending pending' : List Dependency}

/-- The nodes in one slot of a view. -/
theorem leads_traverse (ih : NodesAlike before after ctx P e leaves levels)
    (twins : Scope.Twins before after scope scope') (slot : Slot) {nodes : List Node}
    (hiterates : ∀ node ∈ nodes, Node.Iterates P levels node) :
    (course before after).Leads (List.flatMap Rendered.records)
      (List.Forall₂ (Rendered.Alike (Views before after e)))
      (Expanding.traverse (Node.expand leaves levels (ctx.withScope scope) [] slot) nodes)
      (Expanding.traverse (Node.expand leaves levels (ctx.withScope scope') [] slot) nodes) := by
  refine Leads.traverse (List.forall₂_same.2 fun node hnode => ?_)
  exact ih scope scope' [] [] slot node twins (hiterates node hnode)

theorem leads_container (h : Setting before after ctx P e)
    (ih : NodesAlike before after ctx P e leaves levels)
    (twins : Scope.Twins before after scope scope') (settings : ContainerSettings)
    {children : List Node} (hiterates : ∀ child ∈ children, Node.Iterates P levels child) :
    (course before after).Leads Rendered.records (Rendered.Alike (Views before after e))
      (Node.expand leaves (levels + 1) (ctx.withScope scope) pending slot
        (.container settings children))
      (Node.expand leaves (levels + 1) (ctx.withScope scope') pending' slot
        (.container settings children)) := by
  rw [Node.expand, Node.expand]
  refine Leads.bind (h.leads_ofNoting (Basic.containerKind settings)
    (Basic.containerKind settings)) (fun p q hkinds => ?_) ?_
  · exact leads_view (views_of_kinds hkinds _ _ _) (leads_traverse ih twins .item hiterates)
  · intro p outcome paths hruns
    exact List.Subset.trans (List.subset_append_right _ _) (subset_records_of_runs hruns)

theorem leads_forEach (h : Setting before after ctx P e)
    (ih : NodesAlike before after ctx P e leaves levels)
    (twins : Scope.Twins before after scope scope') {settings : ForEachSettings} {template : Node}
    {emptyView : Option Node} (hitemsText : P settings.items)
    (htemplate : Node.Iterates P levels template)
    (hempty : ∀ view, emptyView = some view → Node.Iterates P levels view) :
    (course before after).Leads Rendered.records (Rendered.Alike (Views before after e))
      (Node.expand leaves (levels + 1) (ctx.withScope scope) pending slot
        (.forEach settings template emptyView))
      (Node.expand leaves (levels + 1) (ctx.withScope scope') pending' slot
        (.forEach settings template emptyView)) := by
  rw [Node.expand, Node.expand]
  have hitemsAt := course_itemsAt twins h.tracks (h.iterates _ hitemsText)
  refine Leads.bind (Leads.ofNoting hitemsAt hitemsAt rfl rfl) ?_ ?_
  · rintro ⟨⟨items, source⟩, shape⟩ ⟨⟨items', source'⟩, shape'⟩ ⟨⟨hsource, hitems⟩, -⟩
    obtain rfl : source = source' := hsource
    have hiteration := h.leads_iteration settings slot (pending ++ shape) (pending' ++ shape')
      twins hitems fun scope scope' twins =>
        ih scope scope' [] [] .item template twins htemplate
    -- Both arrays are empty or none is, so both runs take the empty view or none does.
    cases items with
    | nil =>
      obtain rfl : items' = [] := List.eq_nil_of_length_eq_zero hitems.length.symm
      cases emptyView with
      | none => exact hiteration
      | some view =>
        exact ih scope scope' (pending ++ shape) (pending' ++ shape') slot view twins
          (hempty view rfl)
    | cons item rest =>
      cases items' with
      | nil => cases hitems.length
      | cons item' rest' => exact hiteration
  · rintro ⟨⟨items, source⟩, shape⟩ outcome paths hruns
    simp only at hruns
    -- The array is recorded with the iteration, or with the empty view in its place.
    split at hruns
    · have hpending := Node.pending_subset hruns
      exact List.Subset.trans (List.Subset.trans (List.subset_append_right _ _) hpending)
        outcome.result.dependencies_subset_records
    · obtain ⟨p, _, _, _, -, hview, rfl, -⟩ := Expanding.runs_bind.1 hruns
      have hdependencies := subset_records_of_runs hview
      refine List.Subset.trans ?_ hdependencies
      exact List.Subset.trans (List.subset_append_right _ _) (List.subset_append_left _ _)

theorem leads_component (h : Setting before after ctx P e)
    (twins : Scope.Twins before after scope scope') (leaf : Leaf) :
    (course before after).Leads Rendered.records (Rendered.Alike (Views before after e))
      (Node.expand leaves (levels + 1) (ctx.withScope scope) pending slot (.component leaf))
      (Node.expand leaves (levels + 1) (ctx.withScope scope') pending' slot (.component leaf)) := by
  rw [Node.expand, Node.expand]
  refine Leads.bind (h.leafKind twins leaves leaf) (fun p q hkinds => ?_) ?_
  · exact Leads.done (.mk (views_of_kinds hkinds _ _ _) .nil)
  · intro p outcome paths hruns
    obtain ⟨rfl, -⟩ := Expanding.runs_done.1 hruns
    refine List.Subset.trans (List.subset_append_right pending p.2) ?_
    exact List.subset_append_left _ _

/-- A section is expanded to its header, its items and its footer. -/
theorem leads_section (ih : NodesAlike before after ctx P e leaves levels)
    (twins : Scope.Twins before after scope scope') {s : Section}
    (hiterates : Section.Iterates P (levels + 1) s) :
    (course before after).Leads Rendered.records (Rendered.Alike (Views before after e))
      (Section.expand leaves (levels + 1) (ctx.withScope scope) s)
      (Section.expand leaves (levels + 1) (ctx.withScope scope') s) := by
  obtain ⟨id, settings, header, footer, stickyHeader, children⟩ := s
  obtain ⟨hheader, hchildren, hfooter⟩ := hiterates
  rw [Section.expand, Section.expand]
  refine (leads_traverse ih twins .header hheader).bind (fun hs hs' hhs => ?_) ?_
  · refine (leads_traverse ih twins .item hchildren).bind (fun is is' his => ?_) ?_
    · refine (leads_traverse ih twins .footer hfooter).bind (fun fs fs' hfs => ?_) ?_
      · refine Leads.done (.mk (views_of_held_eq_nil rfl rfl _ _ _) ?_)
        exact List.rel_append (List.rel_append hhs his) hfs
      · intro fs outcome paths hruns
        obtain ⟨rfl, -⟩ := Expanding.runs_done.1 hruns
        rw [Rendered.records, Rendered.recordsOfAll_eq, List.flatMap_append]
        exact List.subset_append_right _ _
    · intro is outcome paths hruns
      obtain ⟨fs, _, _, _, -, hdone, rfl, -⟩ := Expanding.runs_bind.1 hruns
      obtain ⟨rfl, -⟩ := Expanding.runs_done.1 hdone
      rw [Rendered.records, Rendered.recordsOfAll_eq, List.flatMap_append, List.flatMap_append]
      exact List.Subset.trans (List.subset_append_right _ _) (List.subset_append_left _ _)
  · intro hs outcome paths hruns
    obtain ⟨is, _, _, _, -, hitems, rfl, -⟩ := Expanding.runs_bind.1 hruns
    obtain ⟨fs, _, _, _, -, hdone, rfl, -⟩ := Expanding.runs_bind.1 hitems
    obtain ⟨rfl, -⟩ := Expanding.runs_done.1 hdone
    rw [Rendered.records, Rendered.recordsOfAll_eq, List.flatMap_append, List.flatMap_append]
    exact List.Subset.trans (List.subset_append_left _ _) (List.subset_append_left _ _)

end Levels

/-- Nodes and sections have related views in the same places, however deep they are expanded. -/
theorem expand_alike (h : Setting before after ctx P e) (leaves : LeafRules) (levels : Nat) :
    NodesAlike before after ctx P e leaves levels ∧
      SectionsAlike before after ctx P e leaves levels := by
  induction levels with
  | zero =>
    refine ⟨?_, ?_⟩
    · intro scope scope' pending pending' slot node _ _
      rw [Node.expand, Node.expand]
      exact Leads.fail
    · intro scope scope' s _ _
      rw [Section.expand, Section.expand]
      exact Leads.fail
  | succ levels ih =>
    obtain ⟨ihNode, ihSection⟩ := ih
    refine ⟨?_, fun scope scope' s twins hiterates => leads_section ihNode twins hiterates⟩
    intro scope scope' pending pending' slot node twins hiterates
    cases node with
    | container settings children => exact h.leads_container ihNode twins settings hiterates
    | sectionLayout id spacing sections =>
      rw [Node.expand, Node.expand]
      refine leads_view (views_of_held_eq_nil rfl rfl _ _ _) (Leads.traverse ?_)
      refine List.forall₂_same.2 fun s hs => ?_
      exact ihSection scope scope' s twins (hiterates s hs)
    | forEach settings template emptyView =>
      obtain ⟨hitemsText, htemplate, hempty⟩ := hiterates
      exact h.leads_forEach ihNode twins hitemsText htemplate hempty
    | spacer space =>
      rw [Node.expand, Node.expand]
      exact Leads.done (.mk (views_of_held_eq_nil rfl rfl _ _ _) .nil)
    | component leaf => exact h.leads_component twins leaf

end Setting

end Comparison

end ScreenDoc
