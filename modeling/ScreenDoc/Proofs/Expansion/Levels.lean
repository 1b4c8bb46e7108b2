import ScreenDoc.Proofs.Expansion.Reference

/-!
# Levels of nesting

The expansion of a part of the layout succeeds if its views are nested no deeper than the levels
that are left, and then gives the views of the reference expansion. Otherwise it fails with the
limit. Nothing else can make it fail, as long as no leaf does.

## Main definitions

- `Expanding.FailsUnless` — a computation that fails with one error unless a condition holds
- `Expanding.FailsUnless.NodeFits` — a node that is expanded as far as there are levels
- `LeafRules.NeverFails` — rules by which no leaf can stop the expansion

## Main results

- `LeafRules.neverFails_builtin` — the built-in rules are such rules
- `Expanding.FailsUnless.expand` — every node is expanded as far as there are levels
-/

namespace ScreenDoc

/-! ### Results without notes -/

namespace Noting

variable {α β : Type} (answers : Path → Option Value)

theorem result_pure (a : α) : (pure a : Noting α).result answers = a := rfl

theorem result_bind (x : Noting α) (f : α → Noting β) :
    (x >>= f).result answers = (f (x.result answers)).result answers := by
  rw [result, bind_eq, outcome_bind]
  rfl

end Noting

namespace Context

variable (ctx : Context) (answers : Path → Option Value)

theorem result_observe {α : Type} (reading : Reading α) :
    (ctx.observe reading).result answers = reading.value answers := by
  rw [Noting.result, outcome_observe_eq]

theorem result_itemsAt (text : String) :
    (ctx.itemsAt text).result answers = ctx.scope.itemsAt answers text := by
  rw [itemsAt, Scope.itemsAt]
  cases Path.ofText? text with
  | none =>
    simp only
    rw [Noting.result_bind, valueOf, result_observe]
    rfl
  | some path =>
    simp only [Scope.readPath, Scope.sourcePath]
    rcases ctx.scope.lookup path with _ | ⟨value, _ | source⟩ <;> rfl

theorem result_effectiveStyle (id : Option String) (inline : Option StyleLayer)
    (own : OwnProperties) :
    FinalStyle.ofLayer ((ctx.effectiveStyle id inline).result answers) own =
      ctx.shownStyle id inline own := by
  rw [effectiveStyle, shownStyle]
  cases ctx.document.styles.effective ctx.limits.styles id inline <;> rfl

theorem result_finalStyle (id : Option String) (inline : Option StyleLayer) (own : OwnProperties) :
    (ctx.finalStyle id inline own).result answers = ctx.shownStyle id inline own := by
  rw [finalStyle, Noting.result_bind]
  exact ctx.result_effectiveStyle answers id inline own

theorem result_containerKind (settings : ContainerSettings) :
    (ctx.containerKind settings).result answers = ctx.shownContainer settings := by
  rw [containerKind, Noting.result_bind, result_finalStyle]
  rfl

theorem result_iterationKind (settings : ForEachSettings) :
    (ctx.iterationKind settings).result answers = ctx.shownIteration settings := by
  rw [iterationKind, Noting.result_bind, result_finalStyle]
  rfl

theorem style_screen (root : Root) :
    ((ctx.screen root).result answers).style =
      ctx.shownStyle root.styleId root.style ⟨root.edgeInsets, none, none, none⟩ := by
  rw [screen, Noting.result_bind, Noting.result_bind, Noting.result_bind]
  exact ctx.result_effectiveStyle answers _ _ _

end Context

/-! ### Leaves that cannot fail -/

theorem eq_error_of_map {α β : Type} {x : Except Problem α} {f : α → β} {error : Problem}
    (h : x.map f = .error error) : x = .error error := by
  cases x with
  | error found => exact congrArg Except.error (Except.error.inj h)
  | ok a => cases h

namespace Context

variable {ctx : Context} {answers : Path → Option Value} {leaf : Leaf} {error : Problem}

theorem isFatal_imageView (h : (ctx.imageView leaf).result answers = .error error) :
    error.isFatal = false := by
  rw [imageView, Noting.result_bind] at h
  cases hsource : (ctx.imageOrigin? leaf).result answers with
  | some source =>
    rw [hsource] at h
    simp only [Noting.result_bind] at h
    cases h
  | none =>
    rw [hsource] at h
    simp only at h
    split at h
    · simp only [Noting.result_bind] at h
      cases h
    · cases h
      rfl

theorem isFatal_gradientView (h : (ctx.gradientView leaf).result answers = .error error) :
    error.isFatal = false := by
  rw [gradientView] at h
  simp only at h
  split at h
  · cases h
    rfl
  · rw [Noting.result_bind] at h
    cases h

theorem isFatal_sliderView (h : (ctx.sliderView leaf).result answers = .error error) :
    error.isFatal = false := by
  rw [sliderView] at h
  simp only at h
  split at h
  · cases h
    rfl
  · simp only [Noting.result_bind] at h
    cases h

theorem isFatal_shapeView (h : (ctx.shapeView leaf).result answers = .error error) :
    error.isFatal = false := by
  rw [shapeView] at h
  split at h
  · next found hform =>
    rw [Noting.result_pure, Except.error.injEq] at h
    rw [shapeForm] at hform
    split at hform
    · cases hform
    · split at hform
      · cases hform
      · cases hform
        rw [← h]
        rfl
  · rw [Noting.result_bind] at h
    cases h

end Context

/-- Only a rule of the host that says so stops the expansion. -/
theorem LeafRule.isFatal_kindOf {rule : LeafRule} (hrule : ∀ error, rule ≠ .fatal error)
    {ctx : Context} {answers : Path → Option Value} {leaf : Leaf} {error : Problem}
    (h : (rule.kindOf ctx leaf).result answers = .error error) : error.isFatal = false := by
  cases rule with
  | image =>
    rw [kindOf, Noting.result_bind] at h
    exact Context.isFatal_imageView (eq_error_of_map h)
  | gradient =>
    rw [kindOf, Noting.result_bind] at h
    exact Context.isFatal_gradientView (eq_error_of_map h)
  | slider =>
    rw [kindOf, Noting.result_bind] at h
    exact Context.isFatal_sliderView (eq_error_of_map h)
  | shape =>
    rw [kindOf, Noting.result_bind] at h
    exact Context.isFatal_shapeView (eq_error_of_map h)
  | fatal found => exact absurd rfl (hrule found)
  | _ =>
    rw [kindOf, Noting.result_bind] at h
    cases h

namespace LeafRules

/-- Whether no rule of the host stops the expansion. -/
def NeverFails (leaves : LeafRules) : Prop :=
  ∀ type error, Fields.get? leaves.byName type ≠ some (.fatal error)

/-- No built-in rule stops the expansion. -/
theorem neverFails_builtin : builtin.NeverFails := by
  intro type error hrule
  have hmem := Fields.mem_ofList (Fields.mem_of_get? hrule)
  simp at hmem

theorem NeverFails.isFatal_kindOf {leaves : LeafRules} (hleaves : leaves.NeverFails)
    {ctx : Context} {answers : Path → Option Value} {leaf : Leaf} {error : Problem}
    (h : (leaves.kindOf ctx leaf).result answers = .error error) : error.isFatal = false := by
  rw [kindOf] at h
  split at h
  · next rule hrule =>
    refine LeafRule.isFatal_kindOf (fun found hfatal => ?_) h
    exact hleaves leaf.type found (hfatal ▸ hrule)
  · cases h

end LeafRules

/-! ### Computations that fail in one way -/

namespace Expanding

variable {α β : Type}

/-- Whether a computation fails with one error unless a condition holds. Where the condition holds,
it gives a result as required. -/
structure FailsUnless (answers : Path → Option Value) (error : Problem) (fits : Prop)
    (R : α → Prop) (x : Expanding α) : Prop where
  succeeds : fits → ∃ outcome : Diagnosed α,
    Reading.value answers x = .ok outcome ∧ R outcome.result
  fails : ¬ fits → Reading.value answers x = .error error

variable {answers : Path → Option Value} {error : Problem} {fits fits' : Prop} {R : α → Prop}
  {S : β → Prop}

namespace FailsUnless

theorem done {a : α} (hfits : fits) (h : R a) :
    FailsUnless answers error fits R (pure a : Expanding α) :=
  ⟨fun _ => ⟨⟨a, []⟩, rfl, h⟩, fun hnot => absurd hfits hnot⟩

theorem fail (hnot : ¬ fits) :
    FailsUnless answers error fits R (Expanding.fail error : Expanding α) :=
  ⟨fun hfits => absurd hfits hnot, fun _ => rfl⟩

theorem diagnose (problem : Problem) :
    FailsUnless answers error True (fun _ => True) (Expanding.diagnose problem) :=
  ⟨fun _ => ⟨⟨(), [problem]⟩, rfl, trivial⟩, fun hnot => absurd trivial hnot⟩

theorem ofNoting (x : Noting α) :
    FailsUnless answers error True (fun p => p.1 = x.result answers)
      (Expanding.ofNoting x) := by
  refine ⟨fun _ => ?_, fun hnot => absurd trivial hnot⟩
  obtain ⟨hvalue, -⟩ := Expanding.runs_ofNoting.2 ⟨rfl, rfl⟩
  exact ⟨_, hvalue, rfl⟩

theorem restate {x : Expanding α} (h : FailsUnless answers error fits R x)
    (hfits : fits' ↔ fits) : FailsUnless answers error fits' R x :=
  ⟨fun hheld => h.succeeds (hfits.1 hheld), fun hnot => h.fails fun hheld => hnot (hfits.2 hheld)⟩

/-- One computation after another. The condition on the second one may not depend on the result of
the first one. -/
theorem bind {x : Expanding α} {f : α → Expanding β} (hx : FailsUnless answers error fits R x)
    (hf : ∀ a, R a → FailsUnless answers error fits' S (f a)) :
    FailsUnless answers error (fits ∧ fits') S (x >>= f) := by
  refine ⟨fun ⟨hfits, hfits'⟩ => ?_, fun hnot => ?_⟩
  · obtain ⟨a, hvalue, ha⟩ := hx.succeeds hfits
    obtain ⟨b, hnext, hb⟩ := (hf a.result ha).succeeds hfits'
    refine ⟨⟨b.result, a.diagnostics ++ b.diagnostics⟩, ?_, hb⟩
    rw [value_bind, hvalue]
    simp only [hnext]
  · rw [value_bind]
    by_cases hfits : fits
    · -- The first computation succeeds, so it is the second one that fails.
      obtain ⟨a, hvalue, ha⟩ := hx.succeeds hfits
      have hnext := (hf a.result ha).fails fun hfits' => hnot ⟨hfits, hfits'⟩
      rw [hvalue]
      simp only [hnext]
    · rw [hx.fails hfits]

theorem bind_pure {x : Expanding α} {g : α → β} (hx : FailsUnless answers error fits R x)
    (hg : ∀ a, R a → S (g a)) : FailsUnless answers error fits S (x >>= fun a => pure (g a)) := by
  have hpure : ∀ a, R a → FailsUnless answers error True S (pure (g a) : Expanding β) :=
    fun a ha => done trivial (hg a ha)
  exact (hx.bind hpure).restate (by rw [and_true])

/-- A computation that cannot fail may come first. -/
theorem ofNoting_bind {x : Noting α} {f : α × List Dependency → Expanding β}
    (hf : ∀ dependencies, FailsUnless answers error fits S (f (x.result answers, dependencies))) :
    FailsUnless answers error fits S (Expanding.ofNoting x >>= f) := by
  have hnext : ∀ p : α × List Dependency, p.1 = x.result answers →
      FailsUnless answers error fits S (f p) := by
    rintro ⟨a, dependencies⟩ rfl
    exact hf dependencies
  exact ((ofNoting x).bind hnext).restate (by rw [true_and])

theorem traverse {γ : Type} {f : α → Expanding β} {shown : β → γ} {expected : α → γ}
    {p : α → Prop} {as : List α}
    (h : ∀ a ∈ as, FailsUnless answers error (p a) (fun b => shown b = expected a) (f a)) :
    FailsUnless answers error (∀ a ∈ as, p a) (fun bs => bs.map shown = as.map expected)
      (Expanding.traverse f as) := by
  induction as with
  | nil =>
    have hfits : ∀ a ∈ ([] : List α), p a := fun a ha => absurd ha List.not_mem_nil
    exact done hfits rfl
  | cons a rest ih =>
    have hfirst := h a List.mem_cons_self
    have hrest := ih fun b hb => h b (List.mem_cons_of_mem _ hb)
    have hboth : ∀ b, shown b = expected a → FailsUnless answers error (∀ b ∈ rest, p b)
        (fun bs => bs.map shown = (a :: rest).map expected)
        (Expanding.traverse f rest >>= fun others => pure (b :: others)) := by
      intro b hb
      refine hrest.bind_pure fun bs hbs => ?_
      rw [List.map_cons, List.map_cons, hb, hbs]
    exact (hfirst.bind hboth).restate List.forall_mem_cons

end FailsUnless

end Expanding

/-! ### Levels -/

namespace Expanding.FailsUnless

variable {leaves : LeafRules} {answers : Path → Option Value} {error : Problem} {fits : Prop}

/-- What a leaf shows never depends on the levels. -/
theorem leafKind (hleaves : leaves.NeverFails) (ctx : Context) (leaf : Leaf) :
    FailsUnless answers error True (fun p => p.1 = ctx.shownLeaf leaves answers leaf)
      (ctx.leafKind leaves leaf) := by
  rw [Context.leafKind, Context.shownLeaf]
  refine ofNoting_bind fun dependencies => ?_
  cases houtcome : (leaves.kindOf ctx leaf).result answers with
  | ok kind => exact done trivial rfl
  | error problem =>
    have hfatal := hleaves.isFatal_kindOf houtcome
    simp only [hfatal, Bool.false_eq_true, if_false]
    exact (diagnose problem).bind_pure fun _ _ => rfl

/-- A view and the views below it. -/
theorem rendered {view : View} {dependencies : List Dependency} {outlines : List Outline}
    {x : Expanding (List Rendered)}
    (h : FailsUnless answers error fits (fun rs => rs.map Rendered.outline = outlines) x) :
    FailsUnless answers error fits (fun r : Rendered => r.outline = .mk view outlines)
      (x >>= fun children => pure (.mk view dependencies children)) := by
  refine h.bind_pure fun children hchildren => ?_
  rw [Rendered.outline, Rendered.outlines_eq_map, hchildren]

/-- Whether a node is expanded to the views of the reference expansion if these fit into a number of
levels, and fails with the limit if they do not. -/
abbrev NodeFits (leaves : LeafRules) (answers : Path → Option Value) (levels : Nat) (ctx : Context)
    (pending : List Dependency) (slot : Slot) (node : Node) : Prop :=
  FailsUnless answers (.depthExceeded ctx.limits.layout)
    (node.nesting answers ctx.scope ≤ levels)
    (fun r => r.outline = node.outline leaves answers ctx slot)
    (Node.expand leaves levels ctx pending slot node)

/-- The same for a section. -/
abbrev SectionFits (leaves : LeafRules) (answers : Path → Option Value) (levels : Nat)
    (ctx : Context) (s : Section) : Prop :=
  FailsUnless answers (.depthExceeded ctx.limits.layout)
    (s.nesting answers ctx.scope ≤ levels)
    (fun r => r.outline = s.outline leaves answers ctx)
    (Section.expand leaves levels ctx s)

section Levels

variable {levels : Nat} {ctx : Context} {pending : List Dependency} {slot : Slot}

/-- The nodes in one slot of a view. -/
theorem nodes (ih : ∀ ctx pending slot node, NodeFits leaves answers levels ctx pending slot node)
    (ctx : Context) (slot : Slot) (nodes : List Node) :
    FailsUnless answers (.depthExceeded ctx.limits.layout)
      (∀ node ∈ nodes, node.nesting answers ctx.scope ≤ levels)
      (fun rs => rs.map Rendered.outline = nodes.map (Node.outline leaves answers ctx slot))
      (Expanding.traverse (Node.expand leaves levels ctx [] slot) nodes) :=
  traverse fun node _ => ih ctx [] slot node

theorem container
    (ih : ∀ ctx pending slot node, NodeFits leaves answers levels ctx pending slot node)
    (settings : ContainerSettings) (children : List Node) :
    NodeFits leaves answers (levels + 1) ctx pending slot (.container settings children) := by
  have hchildren := nodes ih ctx .item children
  rw [NodeFits, Node.expand, Node.outline, Node.outlines_eq_map,
    ← ctx.result_containerKind answers settings]
  refine (ofNoting_bind fun dependencies => rendered hchildren).restate ?_
  rw [Node.nesting, Nat.add_comm, Nat.succ_le_succ_iff, Node.deepest_le]

theorem sectionLayout (ih : ∀ ctx s, SectionFits leaves answers levels ctx s)
    (id : Option String) (spacing : Option Float) (sections : List Section) :
    NodeFits leaves answers (levels + 1) ctx pending slot (.sectionLayout id spacing sections) := by
  rw [NodeFits, Node.expand, Node.outline, Section.outlines_eq_map]
  refine (rendered (traverse fun s _ => ih ctx s)).restate ?_
  rw [Node.nesting, Nat.add_comm, Nat.succ_le_succ_iff, Section.deepest_le]

/-- The views of an iteration that is not replaced by its empty view. -/
theorem iteration
    (ih : ∀ ctx pending slot node, NodeFits leaves answers levels ctx pending slot node)
    (settings : ForEachSettings) (template : Node) (source : Option Path) (items : List Value) :
    FailsUnless answers (.depthExceeded ctx.limits.layout)
      (1 + largest (items.zipIdx.map fun item =>
        template.nesting answers (ctx.scope.atItem settings source item)) ≤ levels + 1)
      (fun r : Rendered => r.outline = .mk ⟨ctx.shownIteration settings, settings.id, slot⟩
        (items.zipIdx.map fun item =>
          template.outline leaves answers (ctx.atItem settings source item) .item))
      (Expanding.ofNoting (ctx.iterationKind settings) >>= fun p =>
        Expanding.traverse (fun (item, i) =>
          Node.expand leaves levels (ctx.push (Context.itemFrame settings source item i)) []
            .item template) items.zipIdx >>=
          fun children => pure (.mk ⟨p.1, settings.id, slot⟩ (pending ++ p.2) children)) := by
  rw [← ctx.result_iterationKind answers settings]
  -- Each copy of the template is expanded in a scope of its own.
  refine (ofNoting_bind fun dependencies => rendered (traverse fun item _ =>
    ih (ctx.atItem settings source item) [] .item template)).restate ?_
  rw [Nat.add_comm, Nat.succ_le_succ_iff, largest_le, List.forall_mem_map]
  rfl

theorem forEach
    (ih : ∀ ctx pending slot node, NodeFits leaves answers levels ctx pending slot node)
    (settings : ForEachSettings) (template : Node) (emptyView : Option Node) :
    NodeFits leaves answers (levels + 1) ctx pending slot
      (.forEach settings template emptyView) := by
  rw [NodeFits, Node.expand, Node.outline, Node.nesting]
  refine ofNoting_bind fun shape => ?_
  rw [ctx.result_itemsAt answers settings.items]
  obtain ⟨items, source⟩ := ctx.scope.itemsAt answers settings.items
  -- The empty view only takes the place of an iteration without items.
  cases items with
  | nil =>
    cases emptyView with
    | none => exact iteration ih settings template source []
    | some view =>
      refine (ih ctx (pending ++ shape) slot view).restate ?_
      simp only
      rw [Nat.add_comm, Nat.succ_le_succ_iff]
  | cons item rest => exact iteration ih settings template source (item :: rest)

theorem component (hleaves : leaves.NeverFails) (leaf : Leaf) :
    NodeFits leaves answers (levels + 1) ctx pending slot (.component leaf) := by
  have hfits : (Node.component leaf).nesting answers ctx.scope ≤ levels + 1 :=
    Nat.le_add_left 1 levels
  rw [NodeFits, Node.expand]
  refine ((leafKind hleaves ctx leaf).bind_pure fun p hp => ?_).restate (iff_true_intro hfits)
  rw [Rendered.outline, Node.outline, hp]
  rfl

/-- A section is expanded to its header, its items and its footer. -/
theorem ofSection
    (ih : ∀ ctx pending slot node, NodeFits leaves answers levels ctx pending slot node)
    (s : Section) : SectionFits leaves answers (levels + 1) ctx s := by
  obtain ⟨id, settings, header, footer, stickyHeader, children⟩ := s
  have hheader := nodes ih ctx .header header.toList
  have hitems := nodes ih ctx .item children
  have hfooter := nodes ih ctx .footer footer.toList
  rw [SectionFits, Section.expand, Section.outline_mk]
  refine (hheader.bind fun hs hhs => hitems.bind fun is his => hfooter.bind_pure
    fun fs hfs => ?_).restate
      (Section.nesting_mk_le id settings header footer stickyHeader children)
  rw [Rendered.outline, Rendered.outlines_eq_map, List.map_append, List.map_append, hhs, his, hfs]

end Levels

/-- Nodes and sections are expanded as far as there are levels. -/
theorem expand (hleaves : leaves.NeverFails) (answers : Path → Option Value) (levels : Nat) :
    (∀ ctx pending slot node, NodeFits leaves answers levels ctx pending slot node) ∧
      ∀ ctx s, SectionFits leaves answers levels ctx s := by
  -- Sections and nodes take turns, so both are carried from one level to the next.
  induction levels with
  | zero =>
    refine ⟨?_, ?_⟩
    · intro ctx pending slot node
      have hpos := node.nesting_pos answers ctx.scope
      rw [NodeFits, Node.expand]
      exact fail (Nat.not_le_of_lt hpos)
    · intro ctx s
      have hpos := s.nesting_pos answers ctx.scope
      rw [SectionFits, Section.expand]
      exact fail (Nat.not_le_of_lt hpos)
  | succ levels ih =>
    obtain ⟨ihNode, ihSection⟩ := ih
    refine ⟨?_, fun ctx s => ofSection ihNode s⟩
    intro ctx pending slot node
    cases node with
    | container settings children => exact container ihNode settings children
    | sectionLayout id spacing sections => exact sectionLayout ihSection id spacing sections
    | forEach settings template emptyView => exact forEach ihNode settings template emptyView
    | spacer space =>
      rw [NodeFits, Node.expand]
      exact done (Nat.le_add_left 1 levels) rfl
    | component leaf => exact component hleaves leaf

end Expanding.FailsUnless

end ScreenDoc
