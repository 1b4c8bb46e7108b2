import ScreenDoc.Proofs.Expansion.Origin
import ScreenDoc.Proofs.Expr.PlainPath

/-!
# The scopes of an expansion

An expansion is followed step by step, and each step is noted with the scope that it has. The value
of a bound name has been taken out of an array, while its place has been put together from paths.
Both stay together: at each step, the state has at the place of each bound name the value of this
name.

## Main definitions

- `Traced` — a run of an expansion, with the scopes of its steps
- `Node.trace`, `Document.trace`, `Rulebook.trace` — the expansion of a node and of a document
- `Scope.Reflects` — how a scope agrees with a state

## Main results

- `Traced.follows_trace` — a run has the outcome of the expansion
- `Scope.IsKept.atItem` — the names of an iteration stay with their places
- `Traced.reaches_of_expands` — a run that succeeds has a step for each leaf, in the scope of it
- `Rulebook.reflects_of_trace` — at each step, the scope agrees with the state

## Design notes

A run that fails has the steps in front of the failure. The steps of a node have the same scope,
since only an iteration binds names, and only for its template.
-/

namespace ScreenDoc

/-- A run of an expansion. -/
structure Traced (α : Type) where
  outcome : Except Problem (Diagnosed α)
  /-- The scopes of the steps, in order. -/
  scopes : List Scope

namespace Traced

variable {α β : Type}

/-- A result without a step. -/
def done (a : α) : Traced α := ⟨.ok ⟨a, []⟩, []⟩

/-- One run after another, unless the first one fails. -/
def bind (x : Traced α) (f : α → Traced β) : Traced β :=
  match x.outcome with
  | .error error => ⟨.error error, x.scopes⟩
  | .ok a =>
    ⟨(f a.result).outcome.map fun b => ⟨b.result, a.diagnostics ++ b.diagnostics⟩,
      x.scopes ++ (f a.result).scopes⟩

instance : Monad Traced where
  pure := done
  bind := bind

/-- A step in a context. -/
def step (answers : Path → Option Value) (ctx : Context) (f : Context → Expanding α) : Traced α :=
  ⟨Reading.value answers (f ctx), [ctx.scope]⟩

/-- A run for each element of a list, in order. -/
def traverse (f : α → Traced β) : List α → Traced (List β)
  | [] => done []
  | a :: rest => bind (f a) fun b => bind (traverse f rest) fun others => done (b :: others)

end Traced

/-! ### Expansions step by step -/

mutual

/-- The run of `Node.expand`. -/
def Node.trace (leaves : LeafRules) (answers : Path → Option Value) :
    Nat → Context → List Dependency → Slot → Node → Traced Rendered
  | 0, ctx, _, _, _ =>
    Traced.step answers ctx fun ctx => Expanding.fail (.depthExceeded ctx.limits.layout)
  | levels + 1, ctx, pending, slot, .container settings children => do
    let (kind, dependencies) ← Traced.step answers ctx fun ctx =>
      Expanding.ofNoting (ctx.containerKind settings)
    let children ← Traced.traverse (Node.trace leaves answers levels ctx [] .item) children
    return .mk ⟨kind, settings.id, slot⟩ (pending ++ dependencies) children
  | levels + 1, ctx, pending, slot, .sectionLayout id spacing sections => do
    let children ← Traced.traverse (Section.trace leaves answers levels ctx) sections
    Traced.step answers ctx fun _ =>
      return .mk ⟨.sectionLayout (spacing.getD 0.0), id, slot⟩ pending children
  | levels + 1, ctx, pending, slot, .forEach settings template emptyView => do
    let ((items, source), shape) ← Traced.step answers ctx fun ctx =>
      Expanding.ofNoting (ctx.itemsAt settings.items)
    match items, emptyView with
    | [], some view => Node.trace leaves answers levels ctx (pending ++ shape) slot view
    | items, _ => do
      let (kind, dependencies) ← Traced.step answers ctx fun ctx =>
        Expanding.ofNoting (ctx.iterationKind settings)
      let children ← Traced.traverse (fun (item, i) =>
        Node.trace leaves answers levels (ctx.push (Context.itemFrame settings source item i)) []
          .item template) items.zipIdx
      return .mk ⟨kind, settings.id, slot⟩ (pending ++ shape ++ dependencies) children
  | _ + 1, ctx, pending, slot, .spacer space =>
    Traced.step answers ctx fun _ => return .mk ⟨.spacer space, none, slot⟩ pending []
  | _ + 1, ctx, pending, slot, .component leaf => do
    let (kind, dependencies) ← Traced.step answers ctx fun ctx => ctx.leafKind leaves leaf
    return .mk ⟨kind, leaf.id, slot⟩ (pending ++ dependencies) []

/-- The run of `Section.expand`. -/
def Section.trace (leaves : LeafRules) (answers : Path → Option Value) :
    Nat → Context → Section → Traced Rendered
  | 0, ctx, _ =>
    Traced.step answers ctx fun ctx => Expanding.fail (.depthExceeded ctx.limits.layout)
  | levels + 1, ctx, .mk id settings header footer stickyHeader children => do
    let header ← Traced.traverse (Node.trace leaves answers levels ctx [] .header) header.toList
    let items ← Traced.traverse (Node.trace leaves answers levels ctx [] .item) children
    let footer ← Traced.traverse (Node.trace leaves answers levels ctx [] .footer) footer.toList
    Traced.step answers ctx fun _ =>
      return .mk ⟨settings.viewKind stickyHeader, id, .item⟩ [] (header ++ items ++ footer)

end

/-- The run of `Document.expand`. -/
def Document.trace (document : Document) (leaves : LeafRules) (answers : Path → Option Value)
    (ctx : Context) : Traced Expansion := do
  let (screen, dependencies) ← Traced.step answers ctx fun ctx =>
    Expanding.ofNoting (ctx.screen document.root)
  let children ← Traced.traverse
    (Node.trace leaves answers ctx.limits.layout ctx [] .item) document.root.children
  return ⟨screen, .mk (.plainContainer screen.style) dependencies children⟩

/-! ### Outcomes -/

namespace Traced

variable {α β : Type} {answers : Path → Option Value}

/-- Whether a run has the outcome of a computation. -/
def Follows (answers : Path → Option Value) (x : Traced α) (y : Expanding α) : Prop :=
  x.outcome = Reading.value answers y

theorem follows_pure (a : α) : (pure a : Traced α).Follows answers (pure a) := rfl

theorem follows_step (ctx : Context) (f : Context → Expanding α) :
    (step answers ctx f).Follows answers (f ctx) := rfl

theorem Follows.bind {x : Traced α} {y : Expanding α} {f : α → Traced β} {g : α → Expanding β}
    (hx : x.Follows answers y) (hf : ∀ a, (f a).Follows answers (g a)) :
    (x >>= f).Follows answers (y >>= g) := by
  rw [Follows, Expanding.value_bind, ← hx]
  change (Traced.bind x f).outcome = _
  rw [Traced.bind]
  cases x.outcome with
  | error error => rfl
  | ok a =>
    simp only
    rw [hf a.result]
    cases Reading.value answers (g a.result) <;> rfl

theorem Follows.traverse {f : α → Traced β} {g : α → Expanding β}
    (hf : ∀ a, (f a).Follows answers (g a)) (as : List α) :
    (Traced.traverse f as).Follows answers (Expanding.traverse g as) := by
  induction as with
  | nil => exact follows_pure []
  | cons a rest ih => exact (hf a).bind fun b => ih.bind fun others => follows_pure _

end Traced

/-- A node and a section are expanded as they are followed. -/
theorem Traced.follows_trace (leaves : LeafRules) (answers : Path → Option Value) (levels : Nat) :
    (∀ ctx pending slot node, (Node.trace leaves answers levels ctx pending slot node).Follows
      answers (Node.expand leaves levels ctx pending slot node)) ∧
    ∀ ctx s, (Section.trace leaves answers levels ctx s).Follows answers
      (Section.expand leaves levels ctx s) := by
  induction levels with
  | zero => exact ⟨fun ctx _ _ _ => follows_step ctx _, fun ctx _ => follows_step ctx _⟩
  | succ levels ih =>
    obtain ⟨ihnode, ihsection⟩ := ih
    constructor
    · intro ctx pending slot node
      cases node with
      | container settings children =>
        rw [Node.trace, Node.expand]
        refine (follows_step ctx _).bind fun kind => ?_
        exact (Follows.traverse (ihnode ctx [] .item) children).bind fun _ => follows_pure _
      | sectionLayout id spacing sections =>
        rw [Node.trace, Node.expand]
        exact (Follows.traverse (ihsection ctx) sections).bind fun _ => follows_step ctx _
      | forEach settings template emptyView =>
        rw [Node.trace, Node.expand]
        refine (follows_step ctx _).bind fun found => ?_
        obtain ⟨⟨items, source⟩, shape⟩ := found
        have hpart (item : Value × Nat) := ihnode
          (ctx.push (Context.itemFrame settings source item.1 item.2)) [] .item template
        rcases items with _ | ⟨item, items⟩
        · rcases emptyView with _ | view
          · exact (follows_step ctx _).bind fun _ =>
              (Follows.traverse hpart _).bind fun _ => follows_pure _
          · exact ihnode ctx (pending ++ shape) slot view
        · exact (follows_step ctx _).bind fun _ =>
            (Follows.traverse hpart _).bind fun _ => follows_pure _
      | spacer space => exact follows_step ctx _
      | component leaf =>
        rw [Node.trace, Node.expand]
        exact (follows_step ctx _).bind fun _ => follows_pure _
    · rintro ctx ⟨id, settings, header, footer, sticky, children⟩
      rw [Section.trace, Section.expand]
      refine (Follows.traverse (ihnode ctx [] .header) _).bind fun _ => ?_
      refine (Follows.traverse (ihnode ctx [] .item) _).bind fun _ => ?_
      exact (Follows.traverse (ihnode ctx [] .footer) _).bind fun _ => follows_step ctx _

theorem Traced.follows_document (document : Document) (leaves : LeafRules)
    (answers : Path → Option Value) (ctx : Context) :
    (document.trace leaves answers ctx).Follows answers (document.expand leaves ctx) := by
  refine (follows_step ctx _).bind fun _ => ?_
  exact (Follows.traverse ((follows_trace leaves answers _).1 ctx [] .item) _).bind fun _ =>
    follows_pure _

/-! ### Places of bound names -/

namespace Scope

/-- Whether the places of bound names have their values and can be written, and can be read again if
no array of the state is too long. -/
structure IsKept (scope : Scope) (store : Store) : Prop where
  placed : scope.Placed store
  bounded : store.HasBoundedArrays → ∀ frame ∈ scope.frames, ∀ field ∈ frame,
    ∀ source, field.2.source = some source → source.isBounded

variable {scope : Scope} {store : Store}

theorem isKept_empty (store : Store) : empty.IsKept store :=
  ⟨placed_empty store, fun _ _ hframe => absurd hframe List.not_mem_nil⟩

/-- The place that a path stands for can be read again if the path can. -/
theorem IsKept.isBounded_sourcePath (h : scope.IsKept store) (harrays : store.HasBoundedArrays)
    {path place : Path} (hpath : path.isBounded) (hplace : scope.sourcePath path = some place) :
    place.isBounded := by
  rw [Scope.sourcePath] at hplace
  cases hlookup : scope.lookup path with
  | none =>
    rw [hlookup] at hplace
    exact Option.some.inj hplace ▸ hpath
  | some hit =>
    rw [hlookup] at hplace
    simp only [Scope.lookup, Option.bind_eq_bind, Option.bind_eq_some_iff,
      Option.some.injEq] at hlookup
    obtain ⟨name, -, entry, hentry, rfl⟩ := hlookup
    obtain ⟨source, hsource, rfl⟩ := Option.map_eq_some_iff.mp hplace
    obtain ⟨frame, hframe, hget⟩ := List.exists_of_findSome?_eq_some hentry
    have hbounded := h.bounded harrays frame hframe _ (Fields.mem_of_get? hget) source hsource
    have hrest : (path.drop 1).isBounded := List.all_eq_true.mpr fun segment hsegment =>
      List.all_eq_true.mp hpath segment (List.mem_of_mem_drop hsegment)
    rw [Path.isBounded, Path.append, List.all_append]
    exact Bool.and_eq_true_iff.mpr ⟨hbounded, hrest⟩

theorem IsKept.isBounded_itemsAt (h : scope.IsKept store) (harrays : store.HasBoundedArrays)
    {text : String} {array : Path} (harray : (scope.itemsAt store.get? text).2 = some array) :
    array.isBounded := by
  rw [Scope.itemsAt] at harray
  split at harray
  · next path hpath =>
    exact h.isBounded_sourcePath harrays (Path.written_of_ofChars? hpath).2 harray
  · cases harray

/-- An item of an array that lies in the state is not too far behind its start. -/
theorem isBoundedStep_of_item (harrays : store.HasBoundedArrays) {array : Path}
    (hrooted : array.firstKey?.isSome) {i : Nat} {item : Value}
    (hitem : store.get? (array.index i) = some item) : Path.isBoundedStep (.index i) := by
  obtain ⟨value, hvalue, hlookup⟩ := Option.bind_eq_some_iff.mp
    ((Store.get?_append ⟨[.index i]⟩ hrooted).symm.trans hitem)
  cases value with
  | array items =>
    have hfits := harrays array items hvalue
    have hlt : i < items.length := by
      rw [Value.lookup_index, Value.itemsOrNone_array, Option.bind_eq_some_iff] at hlookup
      obtain ⟨child, hchild, -⟩ := hlookup
      exact (List.getElem?_eq_some_iff.mp hchild).1
    rw [Text.fitsInt64, Bool.and_eq_true, decide_eq_true_eq, decide_eq_true_eq, Text.maxInt64]
      at hfits
    rw [Path.isBoundedStep, decide_eq_true_eq, Text.maxIndex]
    omega
  | _ => cases hlookup

/-- The names of an iteration stay with their places. -/
theorem IsKept.atItem (h : scope.IsKept store) {settings : ForEachSettings} {items : List Value}
    {source : Option Path} (hitems : scope.itemsAt store.get? settings.items = (items, source))
    {item : Value × Nat} (hitem : item ∈ items.zipIdx) :
    (scope.atItem settings source item).IsKept store := by
  obtain ⟨rfl, rfl⟩ := Prod.mk.inj hitems
  refine ⟨h.placed.atItem settings hitem, fun harrays frame hframe => ?_⟩
  rcases List.mem_cons.mp hframe with rfl | hframe
  · intro field hfield place hplace
    rcases Fields.mem_insert hfield with rfl | hfield
    · cases hplace
    · obtain rfl := (Fields.mem_insert hfield).resolve_right List.not_mem_nil
      obtain ⟨array, harray, rfl⟩ := Option.map_eq_some_iff.mp hplace
      obtain ⟨hwritten, hget⟩ := h.placed.itemsAt settings.items harray
      have hstep := isBoundedStep_of_item harrays hwritten.rooted
        ((hget _).trans (List.mk_mem_zipIdx_iff_getElem?.mp hitem))
      rw [Path.isBounded, Path.index, List.all_append, List.all_cons, hstep]
      exact Bool.and_eq_true_iff.mpr ⟨h.isBounded_itemsAt harrays harray, rfl⟩
  · exact h.bounded harrays frame hframe

end Scope

/-! ### Steps of a run -/

namespace Traced

variable {α β : Type} {P : Scope → Prop} {answers : Path → Option Value}

/-- Whether the scopes of all steps have a property. -/
def Stays (P : Scope → Prop) (x : Traced α) : Prop :=
  ∀ scope ∈ x.scopes, P scope

theorem stays_pure (a : α) : (pure a : Traced α).Stays P :=
  fun _ hscope => absurd hscope List.not_mem_nil

theorem stays_step {ctx : Context} (h : P ctx.scope) (f : Context → Expanding α) :
    (step answers ctx f).Stays P :=
  List.forall_mem_singleton.mpr h

theorem Stays.bind {x : Traced α} {f : α → Traced β} (hx : x.Stays P)
    (hf : ∀ a problems, x.outcome = .ok ⟨a, problems⟩ → (f a).Stays P) : (x >>= f).Stays P := by
  change (Traced.bind x f).Stays P
  rw [Traced.bind]
  split
  · exact hx
  · next a ha => exact List.forall_mem_append.mpr ⟨hx, hf a.result a.diagnostics ha⟩

theorem Stays.traverse {f : α → Traced β} {as : List α} (hf : ∀ a ∈ as, (f a).Stays P) :
    (Traced.traverse f as).Stays P := by
  induction as with
  | nil => exact stays_pure []
  | cons a rest ih =>
    obtain ⟨hfirst, hrest⟩ := List.forall_mem_cons.mp hf
    exact hfirst.bind fun b _ _ => (ih hrest).bind fun others _ _ => stays_pure _

/-- The items that a step finds are those of the scope. -/
theorem itemsAt_of_step {ctx : Context} {text : String} {items : List Value}
    {source : Option Path} {shape : List Dependency} {problems : List Problem}
    (h : (step answers ctx fun ctx => Expanding.ofNoting (ctx.itemsAt text)).outcome =
      .ok ⟨((items, source), shape), problems⟩) :
    ctx.scope.itemsAt answers text = (items, source) := by
  obtain ⟨hnoted, -⟩ := Expanding.runs_ofNoting.mp ⟨h, rfl⟩
  rw [← Context.result_itemsAt]
  exact congrArg (·.result.1) hnoted.symm

/-- Each step of a node and of a section has a scope whose names stay with their places, if the
scope around it is so. -/
theorem stays_trace (leaves : LeafRules) (store : Store) (levels : Nat) :
    (∀ ctx pending slot node, ctx.scope.IsKept store →
      (Node.trace leaves store.get? levels ctx pending slot node).Stays (Scope.IsKept · store)) ∧
    ∀ ctx s, ctx.scope.IsKept store →
      (Section.trace leaves store.get? levels ctx s).Stays (Scope.IsKept · store) := by
  induction levels with
  | zero => exact ⟨fun ctx _ _ _ h => stays_step h _, fun ctx _ h => stays_step h _⟩
  | succ levels ih =>
    obtain ⟨ihnode, ihsection⟩ := ih
    constructor
    · intro ctx pending slot node hscope
      have hnodes {slot : Slot} {nodes : List Node} :=
        Stays.traverse fun node (_ : node ∈ nodes) => ihnode ctx [] slot node hscope
      cases node with
      | container settings children =>
        rw [Node.trace]
        exact (stays_step hscope _).bind fun _ _ _ => hnodes.bind fun _ _ _ => stays_pure _
      | sectionLayout id spacing sections =>
        rw [Node.trace]
        exact (Stays.traverse fun s _ => ihsection ctx s hscope).bind fun _ _ _ =>
          stays_step hscope _
      | forEach settings template emptyView =>
        rw [Node.trace]
        refine (stays_step hscope _).bind fun found problems houtcome => ?_
        obtain ⟨⟨items, source⟩, shape⟩ := found
        have hitems := itemsAt_of_step houtcome
        have hpart (item : Value × Nat) (hitem : item ∈ items.zipIdx) := ihnode
          (ctx.push (Context.itemFrame settings source item.1 item.2)) [] .item template
          (hscope.atItem hitems hitem)
        rcases items with _ | ⟨item, items⟩
        · rcases emptyView with _ | view
          · exact (stays_step hscope _).bind fun _ _ _ =>
              (Stays.traverse hpart).bind fun _ _ _ => stays_pure _
          · exact ihnode ctx (pending ++ shape) slot view hscope
        · exact (stays_step hscope _).bind fun _ _ _ =>
            (Stays.traverse hpart).bind fun _ _ _ => stays_pure _
      | spacer space => exact stays_step hscope _
      | component leaf =>
        rw [Node.trace]
        exact (stays_step hscope _).bind fun _ _ _ => stays_pure _
    · rintro ctx ⟨id, settings, header, footer, sticky, children⟩ hscope
      have hnodes {slot : Slot} {nodes : List Node} :=
        Stays.traverse fun node (_ : node ∈ nodes) => ihnode ctx [] slot node hscope
      rw [Section.trace]
      exact hnodes.bind fun _ _ _ => hnodes.bind fun _ _ _ => hnodes.bind fun _ _ _ =>
        stays_step hscope _

end Traced

/-! ### Runs that reach each leaf -/

namespace Traced

variable {α β : Type} {answers : Path → Option Value} {scope : Scope}

/-- Whether a run has a step in a scope unless it fails. -/
def Reaches (scope : Scope) (x : Traced α) : Prop :=
  ∀ made, x.outcome = .ok made → scope ∈ x.scopes

theorem reaches_step (ctx : Context) (f : Context → Expanding α) :
    (step answers ctx f).Reaches ctx.scope :=
  fun _ _ => List.mem_singleton_self _

/-- A run of two parts that succeeds has the steps of both, which succeed. -/
theorem exists_of_bind {x : Traced α} {f : α → Traced β} {made : Diagnosed β}
    (h : (x >>= f).outcome = .ok made) :
    ∃ first rest, x.outcome = .ok first ∧ (f first.result).outcome = .ok rest ∧
      (x >>= f).scopes = x.scopes ++ (f first.result).scopes := by
  change (Traced.bind x f).outcome = _ at h
  change ∃ first rest, _ ∧ _ ∧ (Traced.bind x f).scopes = _
  rw [Traced.bind] at h ⊢
  cases hx : x.outcome with
  | error error =>
    rw [hx] at h
    cases h
  | ok first =>
    rw [hx] at h
    simp only at h ⊢
    cases hf : (f first.result).outcome with
    | error error =>
      rw [hf] at h
      cases h
    | ok rest => exact ⟨first, rest, rfl, hf, rfl⟩

theorem Reaches.first {x : Traced α} (h : x.Reaches scope) (f : α → Traced β) :
    (x >>= f).Reaches scope := by
  intro made hmade
  obtain ⟨first, rest, hx, -, hscopes⟩ := exists_of_bind hmade
  rw [hscopes]
  exact List.mem_append_left _ (h first hx)

theorem Reaches.rest {x : Traced α} {f : α → Traced β}
    (h : ∀ a problems, x.outcome = .ok ⟨a, problems⟩ → (f a).Reaches scope) :
    (x >>= f).Reaches scope := by
  intro made hmade
  obtain ⟨first, rest, hx, hf, hscopes⟩ := exists_of_bind hmade
  rw [hscopes]
  exact List.mem_append_right _ (h first.result first.diagnostics hx rest hf)

theorem Reaches.traverse {f : α → Traced β} {as : List α} {a : α} (ha : a ∈ as)
    (h : (f a).Reaches scope) : (Traced.traverse f as).Reaches scope := by
  induction as with
  | nil => exact absurd ha List.not_mem_nil
  | cons other rest ih =>
    rcases List.mem_cons.mp ha with rfl | ha
    · exact h.first _
    · exact Reaches.rest fun _ _ _ => (ih ha).first _

variable {leaves : LeafRules} {levels : Nat} {ctx : Context}

/-- Without levels, a run fails. -/
theorem reaches_of_succ {pending : List Dependency} {slot : Slot} {node : Node}
    (h : ∀ levels, (Node.trace leaves answers (levels + 1) ctx pending slot node).Reaches scope) :
    (Node.trace leaves answers levels ctx pending slot node).Reaches scope := by
  cases levels with
  | zero => exact fun _ hmade => nomatch hmade
  | succ levels => exact h levels

/-- A run of a section that succeeds reaches what is reached in a part of it. -/
theorem reaches_section {id : Option String} {settings : SectionSettings}
    {header footer : Option Node} {sticky : Bool} {children : List Node} {node : Node}
    (hnode : node ∈ header.toList ++ children ++ footer.toList)
    (h : ∀ levels slot, (Node.trace leaves answers levels ctx [] slot node).Reaches scope) :
    (Section.trace leaves answers levels ctx
      (.mk id settings header footer sticky children)).Reaches scope := by
  cases levels with
  | zero => exact fun _ hmade => nomatch hmade
  | succ levels =>
    rw [Section.trace]
    rcases List.mem_append.mp hnode with hnode | hfooter
    · rcases List.mem_append.mp hnode with hheader | hchild
      · exact (Reaches.traverse hheader (h levels .header)).first _
      · exact Reaches.rest fun _ _ _ => (Reaches.traverse hchild (h levels .item)).first _
    · exact Reaches.rest fun _ _ _ => Reaches.rest fun _ _ _ =>
        (Reaches.traverse hfooter (h levels .footer)).first _

/-- A run of a node that succeeds has a step for each leaf, in the scope of the leaf. -/
theorem reaches_of_expands {leaf : Leaf} {outer : Scope} {node : Node}
    (h : node.Expands answers scope leaf outer) (hctx : ctx.scope = outer)
    (pending : List Dependency) (slot : Slot) :
    (Node.trace leaves answers levels ctx pending slot node).Reaches scope := by
  induction h generalizing levels ctx pending slot with
  | component =>
    refine reaches_of_succ fun levels => ?_
    rw [Node.trace, ← hctx]
    exact (reaches_step ctx _).first _
  | container hchild _ ih =>
    refine reaches_of_succ fun levels => ?_
    rw [Node.trace]
    exact Reaches.rest fun _ _ _ => (Reaches.traverse hchild (ih hctx [] .item)).first _
  | inSection hsection hview _ ih =>
    refine reaches_of_succ fun levels => ?_
    rw [Node.trace]
    exact (Reaches.traverse hsection (reaches_section hview fun levels slot =>
      ih hctx [] slot)).first _
  | @template scope settings template emptyView item hitem _ ih =>
    refine reaches_of_succ fun levels => ?_
    rw [Node.trace]
    refine Reaches.rest fun found problems houtcome => ?_
    obtain ⟨⟨items, source⟩, shape⟩ := found
    have hitems := hctx ▸ itemsAt_of_step houtcome
    rw [hitems] at hitem ih
    -- There are items, so the empty view does not take their place.
    rcases items with _ | ⟨first, items⟩
    · exact absurd hitem List.not_mem_nil
    · refine Reaches.rest fun _ _ _ => (Reaches.traverse hitem ?_).first _
      exact ih (congrArg (Scope.atItem · settings source item) hctx) [] .item
  | @emptyView scope settings template view hempty _ ih =>
    refine reaches_of_succ fun levels => ?_
    rw [Node.trace]
    refine Reaches.rest fun found problems houtcome => ?_
    obtain ⟨⟨items, source⟩, shape⟩ := found
    have hitems := hctx ▸ itemsAt_of_step houtcome
    rw [hitems] at hempty
    obtain rfl : items = [] := hempty
    exact ih hctx (pending ++ shape) slot

end Traced

/-! ### Scopes that agree with a state -/

/-- How a scope agrees with a state. -/
structure Scope.Reflects (scope : Scope) (store : Store) : Prop where
  /-- A bound name that has a place has the value that lies there. -/
  value : ∀ frame ∈ scope.frames, ∀ field ∈ frame, ∀ source, field.2.source = some source →
    store.get? source = some field.2.value
  /-- The place is read again from its text, and so is the value. -/
  text : store.HasBoundedArrays → ∀ frame ∈ scope.frames, ∀ field ∈ frame,
    ∀ source, field.2.source = some source →
      Path.ofText? source.text = some source ∧ store.read source.text = some field.2.value
  /-- What a path leads to lies at the place that the path stands for. -/
  lookup : ∀ path hit, scope.lookup path = some hit → ∀ place, hit.source = some place →
    scope.sourcePath path = some place ∧ store.get? place = hit.value
  /-- The values are present ones. -/
  refreshed : scope.refreshed store = scope

theorem Scope.IsKept.reflects {scope : Scope} {store : Store} (h : scope.IsKept store) :
    scope.Reflects store where
  value frame hframe field hfield source hsource :=
    (h.placed frame hframe field hfield source hsource).2
  text harrays frame hframe field hfield source hsource := by
    obtain ⟨hwritten, hvalue⟩ := h.placed frame hframe field hfield source hsource
    have hbounded := h.bounded harrays frame hframe field hfield source hsource
    have htext : Path.ofText? source.text = some source :=
      (Path.ofText?_text hwritten).trans (if_pos hbounded)
    exact ⟨htext, by rw [Store.read, htext, Option.bind_some, hvalue]⟩
  lookup path hit hhit place hplace := by
    have htwins := (Twins.refl h.placed.mirrors).lookup path
    rw [hhit] at htwins
    cases htwins with
    | some hsame =>
      refine ⟨?_, hsame.before place hplace⟩
      rw [Scope.sourcePath, hhit]
      exact hplace
  refreshed := refreshed_of_mirrors h.placed.mirrors

namespace Rulebook

/-- The run of `Rulebook.build`. -/
def trace (rulebook : Rulebook) (document : Document) (state : Store) (track : Bool) :
    Traced Expansion :=
  document.trace rulebook.leaves state.get?
    (Context.ofDocument document rulebook.limits track rulebook.actions)

variable {rulebook : Rulebook} {document : Document} {state : Store}

theorem build_eq_map_trace (track : Bool) :
    rulebook.build document state track =
      (rulebook.trace document state track).outcome.map (rulebook.treeOver document state) := by
  rw [build_eq, trace, Traced.follows_document document rulebook.leaves state.get?]

theorem isKept_of_trace (track : Bool) :
    (rulebook.trace document state track).Stays (Scope.IsKept · state) := by
  have hempty := Scope.isKept_empty state
  rw [trace, Document.trace]
  refine (Traced.stays_step hempty _).bind fun _ _ _ => ?_
  exact (Traced.Stays.traverse fun node _ =>
    (Traced.stays_trace rulebook.leaves state _).1 _ [] .item node hempty).bind
      fun _ _ _ => Traced.stays_pure _

theorem reaches_of_expands {track : Bool} {scope : Scope} {leaf : Leaf}
    (h : document.Expands state scope leaf) :
    (rulebook.trace document state track).Reaches scope := by
  obtain ⟨node, hnode, hexpands⟩ := h
  rw [trace, Document.trace]
  exact Traced.Reaches.rest fun _ _ _ =>
    (Traced.Reaches.traverse hnode (Traced.reaches_of_expands hexpands rfl [] .item)).first _

/-- A tree is built in steps, with a step for each occurrence of a leaf if nothing fails. At each
step, also of a run that fails, the scope agrees with the state. -/
theorem reflects_of_trace (rulebook : Rulebook) (document : Document) (state : Store)
    (track : Bool) :
    rulebook.build document state track =
      (rulebook.trace document state track).outcome.map (rulebook.treeOver document state) ∧
    (∀ scope leaf, document.Expands state scope leaf →
      (rulebook.trace document state track).Reaches scope) ∧
    ∀ scope ∈ (rulebook.trace document state track).scopes, scope.Reflects state :=
  ⟨build_eq_map_trace track, fun _ _ => reaches_of_expands,
    fun scope hscope => (isKept_of_trace track scope hscope).reflects⟩

/-- An iteration over the tags of each row, whose positions take the name of the rows. -/
def taggedRows : Document :=
  let iteration (items item index : String) : ForEachSettings :=
    ⟨none, items, item, index, .vertical, none, none, none⟩
  { id := "tagged"
    version := none
    state := []
    styles := []
    dataSources := []
    actions := []
    root := ⟨none, none, none, none, none, ⟨none, none⟩,
      [.forEach (iteration "rows" "row" "index")
        (.forEach (iteration " row.tags " "tag" "row")
          (.component { Leaf.ofType "text" with text := some "$\x7btag\x7d" }) none) none]⟩ }

/-- The second tag of the second row is found at its place, and the name of the row now stands for a
position. -/
theorem reflects_of_trace_taggedRows :
    let state := Store.ofValues [("rows", .array [.object [("tags", .array [.string "a"])],
      .object [("tags", .array [.string "b", .string "c"])]])]
    ∃ scope ∈ (standard.trace taggedRows state true).scopes, scope.Reflects state ∧
      scope.sourcePath ⟨[.key "tag"]⟩ =
        some ⟨[.key "rows", .index 1, .key "tags", .index 1]⟩ ∧
      (scope.lookup ⟨[.key "tag"]⟩).bind Scope.Hit.value = some (.string "c") ∧
      scope.sourcePath ⟨[.key "row"]⟩ = none := by
  intro state
  have hany : (standard.trace taggedRows state true).scopes.any (fun scope =>
      (scope.lookup ⟨[.key "tag"]⟩).isSome &&
      (scope.sourcePath ⟨[.key "tag"]⟩ =
        some ⟨[.key "rows", .index 1, .key "tags", .index 1]⟩ &&
      scope.sourcePath ⟨[.key "row"]⟩ = none)) := by
    decide +kernel
  obtain ⟨scope, hscope, hall⟩ := List.any_eq_true.mp hany
  simp only [Bool.and_eq_true, decide_eq_true_eq] at hall
  obtain ⟨hbound, htag, hrow⟩ := hall
  have hreflects := (reflects_of_trace standard taggedRows state true).2.2 scope hscope
  refine ⟨scope, hscope, hreflects, htag, ?_, hrow⟩
  obtain ⟨hit, hhit⟩ := Option.isSome_iff_exists.mp hbound
  have hsource : hit.source = some ⟨[.key "rows", .index 1, .key "tags", .index 1]⟩ := by
    rw [← htag, Scope.sourcePath, hhit]
  rw [hhit, Option.bind_some, ← (hreflects.lookup _ hit hhit _ hsource).2]
  rfl

end Rulebook

end ScreenDoc
