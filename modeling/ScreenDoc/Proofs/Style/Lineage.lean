import Mathlib.Data.List.Nodup
import Mathlib.Data.List.Perm.Subperm
import ScreenDoc.Proofs.Style.Layering

/-!
# Where a chain of styles ends

From a style on, inheritance leads through a sequence of names. The sequence may stop, come back to
a name that it has passed, or lead out of the table, and it may be longer than a chain is allowed to
be. The walk along it looks at one name after the other and ends at the first one that it cannot
pass.

## Main definitions

- `StyleTable.descent?` — the names that inheritance leads to, by their places in the sequence
- `StyleTable.IsLineage` — the names of a sequence that stops and is a proper chain
- `StyleTable.Passes` — the walk gets through the first names of the sequence
- `StyleTable.FaultAt` — what keeps the walk from passing a place of the sequence
- `StyleTable.IsFirstFault` — what keeps the walk from going on

## Main results

- `StyleTable.exists_faultAt_iff` — where there is a fault
- `StyleTable.Passes.next` — one round of the walk
- `StyleTable.chainFrom_outcome` — the walk from any of its rounds on
- `StyleTable.effective_outcome` — when a style has properties, which they are, and what is wrong
  with it otherwise

## Design notes

The names that the walk has passed are all different and all in the table. So there are no more of
them than styles in the table, and the walk ends however great the limit is.
-/

namespace ScreenDoc

namespace StyleTable

/-! ### The sequence of names -/

/-- The name that a style of the table inherits from. -/
def parent? (table : StyleTable) (id : String) : Option String :=
  (Fields.get? table id).bind Style.inherits

/-- The names that inheritance leads to from a style on: the first is its own, and each further one
is that of the style that the one before it inherits from. -/
def descent? (table : StyleTable) (id : String) : Nat → Option String
  | 0 => some id
  | k + 1 => (table.descent? id k).bind table.parent?

/-- Whether the sequence from a style on consists of these names: it stops after them, they are not
more than the limit allows, all of them are in the table, and no two of them are the same. -/
structure IsLineage (table : StyleTable) (id : String) (limit : Nat) (names : List String) :
    Prop where
  listed : ∀ k, table.descent? id k = names[k]?
  short : names.length ≤ limit
  known : ∀ name ∈ names, Fields.contains table name
  distinct : names.Nodup

/-- What keeps the walk from passing a place of the sequence. A name that repeats an earlier one
comes before the limit, and the limit before a name that is not in the table. -/
inductive FaultAt (table : StyleTable) (id : String) (limit k : Nat) : StyleError → Prop where
  | cycle {name : String} (reached : table.descent? id k = some name)
      (repeats : ∃ j < k, table.descent? id j = some name) : FaultAt table id limit k (.cycle name)
  | depthExceeded {name : String} (reached : table.descent? id k = some name)
      (fresh : ∀ j < k, table.descent? id j ≠ some name) (far : limit ≤ k) :
      FaultAt table id limit k (.depthExceeded id limit)
  | unknown {name : String} (reached : table.descent? id k = some name)
      (fresh : ∀ j < k, table.descent? id j ≠ some name) (near : k < limit)
      (missing : ¬Fields.contains table name) : FaultAt table id limit k (.unknown name)

/-- What keeps the walk from passing the first place that it cannot pass. -/
structure IsFirstFault (table : StyleTable) (id : String) (limit k : Nat) (error : StyleError) :
    Prop where
  fault : table.FaultAt id limit k error
  first : ∀ j < k, ∀ other, ¬table.FaultAt id limit j other

/-- Whether the walk gets through these names, the first ones of the sequence. -/
structure Passes (table : StyleTable) (id : String) (limit : Nat) (names : List String) :
    Prop where
  reached : ∀ k < names.length, table.descent? id k = names[k]?
  short : names.length ≤ limit
  known : ∀ name ∈ names, Fields.contains table name
  distinct : names.Nodup

variable {table : StyleTable} {id name : String} {limit k : Nat} {names : List String}
  {error : StyleError}

/-- A place has one fault at most. -/
theorem FaultAt.unique {other : StyleError} (h : table.FaultAt id limit k error)
    (h' : table.FaultAt id limit k other) : error = other := by
  cases h with
  | cycle reached repeats =>
    obtain ⟨j, hj, hrepeats⟩ := repeats
    cases h' with
    | cycle reached' =>
      rw [Option.some.inj (reached.symm.trans reached')]
    | depthExceeded reached' fresh' =>
      exact absurd (hrepeats.trans (reached.symm.trans reached')) (fresh' j hj)
    | unknown reached' fresh' =>
      exact absurd (hrepeats.trans (reached.symm.trans reached')) (fresh' j hj)
  | depthExceeded reached fresh far =>
    cases h' with
    | cycle reached' repeats' =>
      obtain ⟨j, hj, hrepeats⟩ := repeats'
      exact absurd (hrepeats.trans (reached'.symm.trans reached)) (fresh j hj)
    | depthExceeded => rfl
    | unknown _ _ near' => exact absurd near' (Nat.not_lt.mpr far)
  | unknown reached fresh near =>
    cases h' with
    | cycle reached' repeats' =>
      obtain ⟨j, hj, hrepeats⟩ := repeats'
      exact absurd (hrepeats.trans (reached'.symm.trans reached)) (fresh j hj)
    | depthExceeded _ _ far' => exact absurd near (Nat.not_lt.mpr far')
    | unknown reached' =>
      rw [Option.some.inj (reached.symm.trans reached')]

/-- There is one first fault at most. -/
theorem IsFirstFault.unique {j : Nat} {other : StyleError}
    (h : table.IsFirstFault id limit k error) (h' : table.IsFirstFault id limit j other) :
    k = j ∧ error = other := by
  have hplace : k = j := by
    rcases Nat.lt_trichotomy k j with hlt | heq | hgt
    · exact absurd h.fault (h'.first k hlt error)
    · exact heq
    · exact absurd h'.fault (h.first j hgt other)
  subst hplace
  exact ⟨rfl, h.fault.unique h'.fault⟩

/-- There is a fault at a place whose name repeats an earlier one, is too far down or is not in the
table. -/
theorem exists_faultAt_iff :
    (∃ error, table.FaultAt id limit k error) ↔
      ∃ name, table.descent? id k = some name ∧
        ((∃ j < k, table.descent? id j = some name) ∨ limit ≤ k ∨ ¬Fields.contains table name) := by
  constructor
  · rintro ⟨error, hfault⟩
    cases hfault with
    | cycle reached repeats => exact ⟨_, reached, .inl repeats⟩
    | depthExceeded reached _ far => exact ⟨_, reached, .inr (.inl far)⟩
    | unknown reached _ _ missing => exact ⟨_, reached, .inr (.inr missing)⟩
  · rintro ⟨name, reached, hwrong⟩
    by_cases hrepeats : ∃ j < k, table.descent? id j = some name
    · exact ⟨_, .cycle reached hrepeats⟩
    · have fresh : ∀ j < k, table.descent? id j ≠ some name :=
        fun j hj heq => hrepeats ⟨j, hj, heq⟩
      by_cases hfar : limit ≤ k
      · exact ⟨_, .depthExceeded reached fresh hfar⟩
      · exact ⟨_, .unknown reached fresh (Nat.lt_of_not_le hfar)
          ((hwrong.resolve_left hrepeats).resolve_left hfar)⟩

/-! ### One round of the walk -/

instance (table : StyleTable) (id : String) (limit : Nat) (names : List String) :
    Decidable (table.Passes id limit names) :=
  decidable_of_iff
    ((∀ k < names.length, table.descent? id k = names[k]?) ∧ names.length ≤ limit ∧
      (∀ name ∈ names, Fields.contains table name) ∧ names.Nodup)
    ⟨fun ⟨reached, short, known, distinct⟩ => ⟨reached, short, known, distinct⟩,
      fun h => ⟨h.reached, h.short, h.known, h.distinct⟩⟩

namespace Passes

/-- Before its first round the walk has passed no name. -/
theorem nil (table : StyleTable) (id : String) (limit : Nat) : table.Passes id limit [] where
  reached k hk := absurd hk (Nat.not_lt_zero k)
  short := Nat.zero_le limit
  known _ hname := absurd hname List.not_mem_nil
  distinct := List.nodup_nil

/-- A name of the sequence is one that the walk has passed if and only if the walk has passed one of
its places. -/
theorem mem_iff (h : table.Passes id limit names) :
    name ∈ names ↔ ∃ k < names.length, table.descent? id k = some name := by
  constructor
  · intro hname
    obtain ⟨k, hk, hget⟩ := List.getElem_of_mem hname
    refine ⟨k, hk, ?_⟩
    rw [h.reached k hk, List.getElem?_eq_getElem hk, hget]
  · rintro ⟨k, hk, hget⟩
    rw [h.reached k hk] at hget
    exact List.mem_of_getElem? hget

/-- The walk has passed no more names than there are styles in the table. -/
theorem length_le (h : table.Passes id limit names) : names.length ≤ table.length := by
  have hkeys : names ⊆ table.map Prod.fst := by
    intro name hname
    obtain ⟨style, hstyle⟩ := Option.isSome_iff_exists.mp (h.known name hname)
    exact List.mem_map.mpr ⟨(name, style), Fields.mem_of_get? hstyle, rfl⟩
  have hlength := (h.distinct.subperm hkeys).length_le
  rwa [List.length_map] at hlength

/-- Nothing keeps the walk from passing a place that it has passed. -/
theorem not_faultAt (h : table.Passes id limit names) (hk : k < names.length) :
    ¬table.FaultAt id limit k error := by
  intro hfault
  cases hfault with
  | cycle reached repeats =>
    obtain ⟨j, hj, hrepeats⟩ := repeats
    rw [h.reached k hk] at reached
    rw [h.reached j (Nat.lt_trans hj hk)] at hrepeats
    have hjk : j = k :=
      (List.getElem?_inj (Nat.lt_trans hj hk) h.distinct).mp (hrepeats.trans reached.symm)
    omega
  | depthExceeded _ _ far =>
    have hshort := h.short
    omega
  | unknown reached _ _ missing =>
    exact missing (h.known _ (h.mem_iff.mpr ⟨k, hk, reached⟩))

/-- A fault behind the names that the walk has passed is the first one. -/
theorem isFirstFault (h : table.Passes id limit names)
    (hfault : table.FaultAt id limit names.length error) :
    table.IsFirstFault id limit names.length error where
  fault := hfault
  first _ hj _ := h.not_faultAt hj

/-- One round of the walk: a name that it has not passed, within the limit and in the table, is one
more name that it passes. -/
theorem next (h : table.Passes id limit names)
    (hname : table.descent? id names.length = some name) (hfresh : name ∉ names)
    (hnear : names.length < limit) (hknown : Fields.contains table name) :
    table.Passes id limit (names ++ [name]) where
  reached k hk := by
    rw [List.length_append, List.length_singleton] at hk
    by_cases hlast : k = names.length
    · rw [hlast, hname, List.getElem?_concat_length]
    · have hk' : k < names.length := by omega
      rw [h.reached k hk', List.getElem?_append_left hk']
  short := by
    rw [List.length_append, List.length_singleton]
    exact hnear
  known other hother := by
    rcases List.mem_append.mp hother with hold | hnew
    · exact h.known other hold
    · rwa [List.mem_singleton.mp hnew]
  distinct := List.nodup_append.mpr
    ⟨h.distinct, List.nodup_singleton name, fun other hother last hlast heq =>
      hfresh (List.mem_singleton.mp hlast ▸ heq ▸ hother)⟩

/-- Where the sequence stops, the names that the walk has passed are those of a proper chain. -/
theorem isLineage (h : table.Passes id limit names)
    (hstop : table.descent? id names.length = none) : table.IsLineage id limit names where
  listed k := by
    by_cases hk : k < names.length
    · exact h.reached k hk
    · have hbeyond : ∀ more, table.descent? id (names.length + more) = none := by
        intro more
        induction more with
        | zero => exact hstop
        | succ more ih => rw [← Nat.add_assoc, descent?, ih, Option.bind_none]
      rw [List.getElem?_eq_none (Nat.le_of_not_lt hk),
        ← Nat.add_sub_of_le (Nat.le_of_not_lt hk), hbeyond]
  short := h.short
  known := h.known
  distinct := h.distinct

end Passes

/-- The walk passes all names of a proper chain. -/
theorem IsLineage.passes (h : table.IsLineage id limit names) : table.Passes id limit names where
  reached k _ := h.listed k
  short := h.short
  known := h.known
  distinct := h.distinct

/-- A style has one proper chain at most. -/
theorem IsLineage.unique {others : List String} (h : table.IsLineage id limit names)
    (h' : table.IsLineage id limit others) : names = others := by
  apply List.ext_getElem?
  intro k
  rw [← h.listed k, h'.listed k]

/-- Nothing is wrong with any place of a proper chain. -/
theorem IsLineage.not_faultAt (h : table.IsLineage id limit names) :
    ¬table.FaultAt id limit k error := by
  intro hfault
  by_cases hk : k < names.length
  · exact h.passes.not_faultAt hk hfault
  · -- The sequence has no place of that number.
    have hstop : table.descent? id k = none := by
      rw [h.listed k, List.getElem?_eq_none (Nat.le_of_not_lt hk)]
    cases hfault with
    | cycle reached => exact absurd (reached.symm.trans hstop) (Option.some_ne_none _)
    | depthExceeded reached => exact absurd (reached.symm.trans hstop) (Option.some_ne_none _)
    | unknown reached => exact absurd (reached.symm.trans hstop) (Option.some_ne_none _)

/-! ### The whole walk -/

/-- How the walk ends that passes further names after some others: with their styles where the
sequence stops, and with what keeps it from passing the next place otherwise. -/
inductive EndsAfter (table : StyleTable) (id : String) (limit : Nat) (names more : List String) :
    Except StyleError (List Style) → Prop where
  | stopped {styles : List Style} (stop : table.descent? id (names ++ more).length = none)
      (found : more.map (Fields.get? table) = styles.map some) :
      EndsAfter table id limit names more (.ok styles)
  | faulted {error : StyleError} (fault : table.FaultAt id limit (names ++ more).length error) :
      EndsAfter table id limit names more (.error error)

/-- A walk that passes one more name ends with its style on top. -/
theorem EndsAfter.cons {style : Style} {more : List String}
    {result : Except StyleError (List Style)} (hstyle : Fields.get? table name = some style)
    (h : table.EndsAfter id limit (names ++ [name]) more result) :
    table.EndsAfter id limit names (name :: more) (result.map (style :: ·)) := by
  have hnames : names ++ name :: more = names ++ [name] ++ more := by
    rw [List.append_assoc, List.singleton_append]
  cases h with
  | stopped stop found =>
    apply EndsAfter.stopped
    · rwa [hnames]
    · rw [List.map_cons, hstyle, found, List.map_cons]
  | faulted fault =>
    apply EndsAfter.faulted
    rwa [hnames]

/-- The walk from any of its rounds on passes the names up to the first fault or to the end of the
sequence. -/
theorem chainFrom_outcome {remaining : Nat} {visited : List String} {current : String}
    (h : table.Passes id limit names) (hcurrent : table.descent? id names.length = some current)
    (hvisited : ∀ name, name ∈ visited ↔ name ∈ names)
    (hremaining : names.length + remaining = limit) :
    ∃ more, table.Passes id limit (names ++ more) ∧
      table.EndsAfter id limit names more
        (table.chainFrom id limit remaining visited current) := by
  induction remaining generalizing names visited current with
  | zero =>
    refine ⟨[], by rwa [List.append_nil], ?_⟩
    rw [chainFrom]
    by_cases hmet : current ∈ visited
    · rw [if_pos (List.contains_iff_mem.mpr hmet)]
      apply EndsAfter.faulted
      rw [List.append_nil]
      exact .cycle hcurrent (h.mem_iff.mp ((hvisited current).mp hmet))
    · rw [if_neg (fun hmem => hmet (List.contains_iff_mem.mp hmem))]
      apply EndsAfter.faulted
      rw [List.append_nil]
      refine .depthExceeded hcurrent (fun j hj heq => ?_) (by omega)
      exact hmet ((hvisited current).mpr (h.mem_iff.mpr ⟨j, hj, heq⟩))
  | succ remaining ih =>
    rw [chainFrom]
    by_cases hmet : current ∈ visited
    · rw [if_pos (List.contains_iff_mem.mpr hmet)]
      refine ⟨[], by rwa [List.append_nil], .faulted ?_⟩
      rw [List.append_nil]
      exact .cycle hcurrent (h.mem_iff.mp ((hvisited current).mp hmet))
    · rw [if_neg (fun hmem => hmet (List.contains_iff_mem.mp hmem))]
      have hfresh : current ∉ names := fun hmem => hmet ((hvisited current).mpr hmem)
      have hnear : names.length < limit := by omega
      cases hstyle : Fields.get? table current with
      | none =>
        refine ⟨[], by rwa [List.append_nil], .faulted ?_⟩
        rw [List.append_nil]
        refine .unknown hcurrent (fun j hj heq => hfresh (h.mem_iff.mpr ⟨j, hj, heq⟩)) hnear ?_
        rw [Fields.contains, hstyle]
        exact Bool.false_ne_true
      | some style =>
        dsimp only
        have hpassed : table.Passes id limit (names ++ [current]) :=
          h.next hcurrent hfresh hnear (by rw [Fields.contains, hstyle]; rfl)
        have hparent : table.descent? id (names ++ [current]).length = style.inherits := by
          rw [List.length_append, List.length_singleton, descent?, hcurrent, Option.bind_some,
            parent?, hstyle, Option.bind_some]
        cases hinherits : style.inherits with
        | none =>
          dsimp only
          refine ⟨[current], hpassed, .stopped (hparent.trans hinherits) ?_⟩
          rw [List.map_singleton, List.map_singleton, hstyle]
        | some parent =>
          dsimp only
          have hvisited' : ∀ name, name ∈ current :: visited ↔ name ∈ names ++ [current] := by
            intro name
            rw [List.mem_cons, List.mem_append, List.mem_singleton, hvisited name, or_comm]
          have hremaining' : (names ++ [current]).length + remaining = limit := by
            rw [List.length_append, List.length_singleton]
            omega
          obtain ⟨more, hmore, hends⟩ :=
            ih hpassed (hparent.trans hinherits) hvisited' hremaining'
          refine ⟨current :: more, ?_, hends.cons hstyle⟩
          rwa [List.append_assoc, List.singleton_append] at hmore

/-- The whole walk. -/
theorem chain_outcome (table : StyleTable) (limit : Nat) (id : String) :
    ∃ names, table.Passes id limit names ∧
      table.EndsAfter id limit [] names (table.chain limit id) :=
  chainFrom_outcome (Passes.nil table id limit) rfl (fun _ => Iff.rfl) (Nat.zero_add limit)

theorem effective_of_chain_error (inline : Option StyleLayer)
    (h : table.chain limit id = .error error) :
    table.effective limit (some id) inline = .error error := by
  rw [effective, h]
  rfl

/-- A style has properties if and only if the sequence from it on is a proper chain. They are then
those of exactly the styles of the chain, with the inline properties on top. If there is no proper
chain, there is a first fault, and the error is that of the first fault. Neither a chain nor a fault
reaches further than there are styles in the table, whatever the limit is. -/
theorem effective_outcome (table : StyleTable) (limit : Nat) (id : String) :
    (∀ inline, (∃ style, table.effective limit (some id) inline = .ok style) ↔
      ∃ names, table.IsLineage id limit names) ∧
    (∀ names, table.IsLineage id limit names →
      names.length ≤ table.length ∧
      ∃ styles : List Style, names.map (Fields.get? table) = styles.map some ∧
        ∀ inline, table.effective limit (some id) inline =
          .ok (StyleLayer.mergedLayers (inline.toList ++ styles.map Style.properties))) ∧
    ((¬∃ names, table.IsLineage id limit names) →
      ∃ k error, table.IsFirstFault id limit k error) ∧
    (∀ k error, table.IsFirstFault id limit k error →
      k ≤ table.length ∧ ∀ inline, table.effective limit (some id) inline = .error error) := by
  obtain ⟨names, hpasses, hends⟩ := chain_outcome table limit id
  cases hchain : table.chain limit id with
  | ok styles =>
    rw [hchain] at hends
    obtain ⟨hstop, hfound⟩ | _ := hends
    have hlineage : table.IsLineage id limit names := hpasses.isLineage hstop
    refine ⟨fun inline => ?_, fun others hothers => ?_, fun hnone => ?_, fun k error hfirst => ?_⟩
    · exact iff_of_true ⟨_, effective_eq_mergedLayers inline hchain⟩ ⟨names, hlineage⟩
    · rw [← hlineage.unique hothers]
      exact ⟨hpasses.length_le, styles, hfound,
        fun inline => effective_eq_mergedLayers inline hchain⟩
    · exact absurd ⟨names, hlineage⟩ hnone
    · exact absurd hfirst.fault hlineage.not_faultAt
  | error error =>
    rw [hchain] at hends
    obtain _ | hfault := hends
    have hfirst : table.IsFirstFault id limit names.length error := hpasses.isFirstFault hfault
    have hnone : ¬∃ names, table.IsLineage id limit names :=
      fun ⟨_, hlineage⟩ => hlineage.not_faultAt hfault
    refine ⟨fun inline => iff_of_false ?_ hnone, fun others hothers => ?_,
      fun _ => ⟨names.length, error, hfirst⟩, fun k other hother => ?_⟩
    · rintro ⟨style, hstyle⟩
      rw [effective_of_chain_error inline hchain] at hstyle
      cases hstyle
    · exact absurd ⟨others, hothers⟩ hnone
    · obtain ⟨hplace, herror⟩ := hother.unique hfirst
      rw [hplace, herror]
      exact ⟨hpasses.length_le, fun inline => effective_of_chain_error inline hchain⟩

/-- A card on a base, two styles that inherit from each other, one that leads to them, and one that
leads out of the table. -/
def tangled : StyleTable :=
  [("base", ⟨none, { StyleLayer.unset with opacity := some 0.5 }⟩),
    ("card", ⟨some "base", { StyleLayer.unset with fontSize := some 12.0 }⟩),
    ("left", ⟨some "right", .unset⟩),
    ("right", ⟨some "left", .unset⟩),
    ("stray", ⟨some "left", .unset⟩),
    ("torn", ⟨some "gone", .unset⟩)]

/-- A card has the properties of its two styles. With room for one style only it is too deep. A
style that leads into a loop comes back to where the loop begins, also when the limit is just
reached there, and a style may lead out of the table. -/
theorem effective_outcome_tangled :
    (∃ styles : List Style, ["card", "base"].map (Fields.get? tangled) = styles.map some ∧
      tangled.effective 2 (some "card") none =
        .ok (StyleLayer.mergedLayers (styles.map Style.properties))) ∧
    tangled.effective 1 (some "card") none = .error (.depthExceeded "card" 1) ∧
    tangled.effective 32 (some "stray") none = .error (.cycle "left") ∧
    tangled.effective 32 (some "torn") none = .error (.unknown "gone") ∧
    tangled.effective 2 (some "left") none = .error (.cycle "left") := by
  have hcard : tangled.Passes "card" 2 ["card", "base"] := by decide +kernel
  have hshort : tangled.Passes "card" 1 ["card"] := by decide +kernel
  have hstray : tangled.Passes "stray" 32 ["stray", "left", "right"] := by decide +kernel
  have htorn : tangled.Passes "torn" 32 ["torn"] := by decide +kernel
  have hleft : tangled.Passes "left" 2 ["left", "right"] := by decide +kernel
  refine ⟨?_, ?_, ?_, ?_, ?_⟩
  · obtain ⟨_, styles, hstyles, heffective⟩ :=
      (effective_outcome tangled 2 "card").2.1 _ (hcard.isLineage (by decide +kernel))
    exact ⟨styles, hstyles, heffective none⟩
  · have hfault : tangled.FaultAt "card" 1 1 (.depthExceeded "card" 1) :=
      .depthExceeded (by decide +kernel : tangled.descent? "card" 1 = some "base")
        (by decide +kernel) (Nat.le_refl 1)
    exact ((effective_outcome tangled 1 "card").2.2.2 _ _ (hshort.isFirstFault hfault)).2 none
  · have hfault : tangled.FaultAt "stray" 32 3 (.cycle "left") :=
      .cycle (by decide +kernel) ⟨1, by decide, by decide +kernel⟩
    exact ((effective_outcome tangled 32 "stray").2.2.2 _ _ (hstray.isFirstFault hfault)).2 none
  · have hfault : tangled.FaultAt "torn" 32 1 (.unknown "gone") :=
      .unknown (by decide +kernel) (by decide +kernel) (by decide) (by decide +kernel)
    exact ((effective_outcome tangled 32 "torn").2.2.2 _ _ (htorn.isFirstFault hfault)).2 none
  · have hfault : tangled.FaultAt "left" 2 2 (.cycle "left") :=
      .cycle (by decide +kernel) ⟨0, by decide, by decide +kernel⟩
    exact ((effective_outcome tangled 2 "left").2.2.2 _ _ (hleft.isFirstFault hfault)).2 none

end StyleTable

end ScreenDoc
