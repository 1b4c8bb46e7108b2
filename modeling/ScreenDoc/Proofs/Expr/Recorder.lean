import ScreenDoc.Proofs.Expr.Within
import ScreenDoc.Proofs.Store.Written

/-!
# Recorded reads

An evaluation reads the state through a recorder. The recorder is asked by the text of a path. It
answers from the scope, or else from the state, and notes each place in the state that was read. The
places that were noted determine the evaluation: on another state with the same values there, it has
the same result and notes the same places in the same order.

## Main definitions

- `Recorder` — a scope over a state, with what was read so far
- `Recorder.read` — one read
- `Recorder.run` — a computation whose questions are put to a recorder, one after the other
- `Recorder.observe` — the result of a computation and the places that it read

## Main results

- `Recorder.read_onto`, `Recorder.run_onto` — a read, and a whole run, on another state with the
  same values at the places that were noted
- `Recorder.observe_determined` — recorded reads determine evaluations, templates and conditions
- `Recorder.observe_eval`, `Recorder.observe_fill`, `Recorder.observe_holds` — what a recorder
  observes is the result of the evaluation within the scope and the paths that it asks for

## Design notes

The state is asked by the printed text of a path, which is read again. That this leads to the same
place is due to `Path.ofText?_text_of_ofChars?`: the path was read from a text.
-/

namespace ScreenDoc

/-- A reader of the state that notes what is read. -/
structure Recorder where
  /-- The names that lie over the state. -/
  scope : Scope
  /-- The state. -/
  state : Store
  /-- The places in the state that were read, in order. -/
  reads : List Path

namespace Recorder

variable {α : Type}

/-- The same recorder over another state. -/
def onto (recorder : Recorder) (state : Store) : Recorder :=
  { recorder with state := state }

/-- A recorder with more places noted. -/
def note (recorder : Recorder) (places : List Path) : Recorder :=
  { recorder with reads := recorder.reads ++ places }

/-- Reads the value at the path that a text writes. A path with a bound root is answered by the
scope, and its place in the state is noted if it has one. For any other path the state is read, by
the printed text of the path, and the path is noted. -/
def read (recorder : Recorder) (text : String) : Option Value × Recorder :=
  match Path.ofText? text with
  | none => (none, recorder)
  | some path =>
    match recorder.scope.lookup path with
    | some hit => (hit.value, recorder.note hit.source.toList)
    | none => (recorder.state.read path.text, recorder.note [path])

/-- Runs a computation. Each question is put to the recorder by the text of its path, and the answer
decides which question comes next. -/
def run : Reading α → Recorder → α × Recorder
  | .done a, recorder => (a, recorder)
  | .ask path next, recorder =>
    let (answer, recorder) := recorder.read path.text
    run (next answer) recorder

/-- The result of a computation, and the places in the state that it read, each once, in the order
of the first read. -/
def observe (scope : Scope) (state : Store) (r : Reading α) : α × List Path :=
  let (result, recorder) := run r ⟨scope, state, []⟩
  (result, recorder.reads.eraseDups)

/-! ### Other states -/

theorem read_of_ofText? {recorder : Recorder} {text : String} {path : Path}
    (h : Path.ofText? text = some path) :
    recorder.read text = (recorder.scope.overlay recorder.state.get? path,
      recorder.note (recorder.scope.sourcePath path).toList) := by
  simp only [read, h, Scope.overlay, Scope.sourcePath]
  cases recorder.scope.lookup path with
  | some hit => rfl
  | none =>
    rw [Store.read, Path.ofText?_text_of_ofChars? h]
    rfl

/-- What was noted stays noted. -/
theorem mem_reads_read {recorder : Recorder} {path : Path} (h : path ∈ recorder.reads)
    (text : String) : path ∈ (recorder.read text).2.reads := by
  cases htext : Path.ofText? text with
  | none => rw [read, htext]; exact h
  | some asked => rw [read_of_ofText? htext]; exact List.mem_append_left _ h

theorem mem_reads_run {recorder : Recorder} {path : Path} (h : path ∈ recorder.reads)
    (r : Reading α) : path ∈ (run r recorder).2.reads := by
  induction r generalizing recorder with
  | done a => exact h
  | ask asked next ih => exact ih _ (mem_reads_read h asked.text)

/-- One read gives the same answer and notes the same place on another state that agrees with the
first one at the place that was noted. -/
theorem read_onto {recorder : Recorder} {other : Store} {text : String}
    (h : ∀ path ∈ (recorder.read text).2.reads,
      recorder.state.get? path = other.get? path) :
    (recorder.onto other).read text =
      ((recorder.read text).1, (recorder.read text).2.onto other) := by
  cases htext : Path.ofText? text with
  | none => rw [read, read, htext]
  | some path =>
    rw [read_of_ofText? htext] at h ⊢
    rw [read_of_ofText? htext]
    have hvalue : recorder.scope.overlay other.get? path =
        recorder.scope.overlay recorder.state.get? path := by
      rw [Scope.overlay, Scope.overlay]
      cases hlookup : recorder.scope.lookup path with
      | some hit => rfl
      | none =>
        -- The scope does not answer, so the path was noted as it is.
        refine (h path (List.mem_append_right _ ?_)).symm
        rw [Scope.sourcePath, hlookup]
        exact List.mem_singleton_self path
    exact congrArg (·, _) hvalue

/-- A run gives the same result and notes the same places on another state that agrees with the
first one at the places that were noted. -/
theorem run_onto {recorder : Recorder} {other : Store} {r : Reading α}
    (h : ∀ path ∈ (run r recorder).2.reads, recorder.state.get? path = other.get? path) :
    run r (recorder.onto other) = ((run r recorder).1, (run r recorder).2.onto other) := by
  induction r generalizing recorder with
  | done a => rfl
  | ask asked next ih =>
    have hstate : (recorder.read asked.text).2.state = recorder.state := by
      cases htext : Path.ofText? asked.text with
      | none => rw [read, htext]
      | some path => rw [read_of_ofText? htext]; rfl
    -- What the first read noted is still noted at the end, where the states agree.
    have hread := read_onto fun path hpath => h path (mem_reads_run hpath _)
    rw [run, hread]
    refine ih _ fun path hpath => ?_
    rw [hstate]
    exact h path hpath

theorem observe_eq_of_agree {scope : Scope} {s₁ s₂ : Store} {r : Reading α}
    (h : ∀ path ∈ (observe scope s₁ r).2, s₁.get? path = s₂.get? path) :
    observe scope s₂ r = observe scope s₁ r := by
  have hrun : run r (onto ⟨scope, s₁, []⟩ s₂) = _ :=
    run_onto fun path hpath => h path (List.mem_eraseDups.mpr hpath)
  rw [onto] at hrun
  simp only [observe, hrun]
  rfl

/-! ### The model of evaluation -/

/-- Asks a question only if its path is found again from its text. -/
def askWritten (path : Path) : Reading (Option Value) :=
  if Path.ofText? path.text = some path then .ask path .done else .done none

theorem read_through_askWritten (text : List Char) :
    (Scope.empty.read text).through askWritten = Scope.empty.read text := by
  rw [Scope.read]
  cases hpath : Path.ofChars? text with
  | none => rfl
  | some path =>
    simp only [Scope.readPath, Scope.lookup_empty]
    rw [Reading.through, askWritten, if_pos (Path.ofText?_text_of_ofChars? hpath)]
    rfl

/-- A computation that asks only for paths that are found again from their texts has, when it is put
to a recorder, the result that it has within the scope, and the paths that it asks for there are
noted. -/
theorem run_through_askWritten (r : Reading α) (recorder : Recorder) :
    run (r.through askWritten) recorder =
      (((r.through askWritten).within recorder.scope).value recorder.state.get?,
        recorder.note (((r.through askWritten).within recorder.scope).paths
          recorder.state.get?)) := by
  rw [Reading.value_within, Reading.paths_within]
  induction r generalizing recorder with
  | done a =>
    rw [Reading.through_done, run, Reading.paths, note, List.filterMap_nil, List.append_nil]
    rfl
  | ask path next ih =>
    rw [Reading.through, askWritten]
    by_cases hwritten : Path.ofText? path.text = some path
    · rw [if_pos hwritten, Reading.ask_bind, run, read_of_ofText? hwritten]
      simp only [Reading.done_bind, ih]
      refine Prod.ext rfl ?_
      simp only [note, Reading.paths, List.filterMap_cons]
      cases recorder.scope.sourcePath path <;> simp
    · rw [if_neg hwritten, Reading.done_bind]
      exact ih none recorder

theorem observe_eq_run {r : Reading α} (h : r.through askWritten = r) (scope : Scope)
    (state : Store) : observe scope state r = (r.within scope).run state.get? := by
  have hrun := run_through_askWritten r ⟨scope, state, []⟩
  rw [h] at hrun
  rw [observe, hrun]
  rfl

/-- What a recorder observes of an evaluation is the value within the scope and the paths that are
asked for there. -/
theorem observe_eval (scope : Scope) (state : Store) (text : List Char) :
    observe scope state (Expr.eval .empty text) = (Expr.eval scope text).run state.get? := by
  rw [observe_eq_run (Expr.through_eval read_through_askWritten text), ← Expr.eval_eq_within]

theorem observe_fill (scope : Scope) (state : Store) (template : List Char) :
    observe scope state (Expr.fill .empty template) =
      (Expr.fill scope template).run state.get? := by
  rw [observe_eq_run (Expr.through_fill read_through_askWritten template), ← Expr.fill_eq_within]

theorem observe_holds (scope : Scope) (state : Store) (text : List Char) :
    observe scope state (Expr.holds .empty text) = (Expr.holds scope text).run state.get? := by
  rw [observe_eq_run (Expr.through_holds read_through_askWritten text), ← Expr.holds_eq_within]

/-! ### Recorded reads -/

/-- Recorded reads determine evaluation. If two states give the same answer at every place that was
recorded on the first one, then an expression has the same value on the second one and the same
places are recorded in the same order; and so it is for templates and for conditions. -/
theorem observe_determined (scope : Scope) (s₁ s₂ : Store) (text : List Char) :
    ((∀ path ∈ (observe scope s₁ (Expr.eval .empty text)).2, s₁.get? path = s₂.get? path) →
      observe scope s₂ (Expr.eval .empty text) = observe scope s₁ (Expr.eval .empty text)) ∧
    ((∀ path ∈ (observe scope s₁ (Expr.fill .empty text)).2, s₁.get? path = s₂.get? path) →
      observe scope s₂ (Expr.fill .empty text) = observe scope s₁ (Expr.fill .empty text)) ∧
    ((∀ path ∈ (observe scope s₁ (Expr.holds .empty text)).2, s₁.get? path = s₂.get? path) →
      observe scope s₂ (Expr.holds .empty text) = observe scope s₁ (Expr.holds .empty text)) :=
  ⟨observe_eq_of_agree, observe_eq_of_agree, observe_eq_of_agree⟩

/-- The branch that a ternary does not take is not recorded, so that a state that differs there
gives the same value. The condition is read through a bound name. -/
theorem observe_determined_ternary :
    let scope := Scope.empty.push
      [("item", ⟨.object [("on", .bool true)], some ((Path.ofKey "rows").index 0)⟩)]
    let before := Store.ofValues
      [("a", .int 1), ("rows", .array [.object [("on", .bool true)]])]
    let after := Store.ofValues
      [("a", .int 1), ("b", .int 2), ("rows", .array [.object [("on", .bool true)]])]
    let text := "item.on ? a : b".toList
    (observe scope before (Expr.eval .empty text)).2 =
        [((Path.ofKey "rows").index 0).key "on", .ofKey "a"] ∧
      observe scope after (Expr.eval .empty text) = observe scope before (Expr.eval .empty text) ∧
      observe scope after (Expr.fill .empty text) = observe scope before (Expr.fill .empty text) ∧
      observe scope after (Expr.holds .empty text) =
        observe scope before (Expr.holds .empty text) := by
  intro scope before after text
  have heval : (observe scope before (Expr.eval .empty text)).2 =
      [((Path.ofKey "rows").index 0).key "on", .ofKey "a"] := by decide +kernel
  have hfill : (observe scope before (Expr.fill .empty text)).2 = [] := by decide +kernel
  have hholds : (observe scope before (Expr.holds .empty text)).2 =
      [((Path.ofKey "rows").index 0).key "on", .ofKey "a"] := by decide +kernel
  have hagree : ∀ path ∈ [((Path.ofKey "rows").index 0).key "on", .ofKey "a"],
      before.get? path = after.get? path := by
    refine List.forall_mem_cons.mpr ⟨rfl, List.forall_mem_singleton.mpr rfl⟩
  obtain ⟨h₁, h₂, h₃⟩ := observe_determined scope before after text
  refine ⟨heval, h₁ ?_, h₂ ?_, h₃ ?_⟩
  · rwa [heval]
  · rw [hfill]
    exact fun path hpath => absurd hpath List.not_mem_nil
  · rwa [hholds]

end Recorder

end ScreenDoc
