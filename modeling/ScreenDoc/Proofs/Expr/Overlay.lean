import Mathlib.Logic.Function.Iterate
import ScreenDoc.Proofs.Expr.Recorder

/-!
# Scopes as a part of the state

What is read through the frames of an iteration is what would be read from a plain state in which
each bound name had the value of its innermost binding. So an expression within a scope has the
result that it has outside of all iterations, over that state.

## Main definitions

- `Store.under` — the plain state that a scope over a state amounts to
- `Expr.results` — what an expression gives as a value, as a template and as a condition
- `Expr.asked` — the places that it asks for

## Main results

- `Store.get?_under` — the plain state answers as the scope does
- `Recorder.read_under` — one read, by the text of a path
- `Expr.results_push` — a frame matters only where a name that it binds is asked for
- `Expr.results_under` — evaluation within a scope is evaluation over the plain state
-/

namespace ScreenDoc

namespace Fields

variable {α : Type}

/-- Fields with other ones put in their places or added. The first ones of a name win. -/
def cover (front fields : List (String × α)) : List (String × α) :=
  front.foldr (fun field fields => insert fields field.1 field.2) fields

theorem get?_cover (front fields : List (String × α)) (name : String) :
    get? (cover front fields) name = (get? front name).or (get? fields name) := by
  induction front with
  | nil => rfl
  | cons field front ih =>
    rw [cover, List.foldr_cons, get?_insert, get?]
    by_cases hname : field.1 = name
    · rw [if_pos hname, if_pos hname, Option.some_or]
    · rw [if_neg hname, if_neg hname, ← ih, cover]

end Fields

/-- The values of a frame. -/
def Scope.Frame.values (frame : Scope.Frame) : List (String × Value) :=
  frame.map fun (name, entry) => (name, entry.value)

theorem Scope.Frame.get?_values (frame : Scope.Frame) (name : String) :
    Fields.get? frame.values name = (Fields.get? frame name).map Scope.Entry.value :=
  Fields.get?_map Scope.Entry.value frame name

theorem Scope.lookup_key (scope : Scope) (name : String) (rest : List Segment) :
    scope.lookup ⟨.key name :: rest⟩ = (scope.innermost? name).map fun entry =>
      ⟨entry.value.lookup rest, entry.source.map fun source => source.append ⟨rest⟩⟩ := by
  rw [Option.map_eq_bind]
  rfl

namespace Store

theorem get?_key (store : Store) (name : String) (rest : List Segment) :
    store.get? ⟨.key name :: rest⟩ = (Fields.get? store.values name).bind (Value.lookup · rest) :=
  rfl

/-- The plain state in which each name that a scope binds has the value of its innermost binding. -/
def under (store : Store) (scope : Scope) : Store :=
  { store with
    values := scope.frames.foldr (fun frame values => Fields.cover frame.values values)
      store.values }

theorem under_push (store : Store) (scope : Scope) (frame : Scope.Frame) :
    (store.under (scope.push frame)).values =
      Fields.cover frame.values (store.under scope).values :=
  rfl

/-- The value of a name is that of its innermost binding, or else the original one. -/
theorem get?_values_under (store : Store) (scope : Scope) (name : String) :
    Fields.get? (store.under scope).values name =
      ((scope.innermost? name).map Scope.Entry.value).or (Fields.get? store.values name) := by
  obtain ⟨frames⟩ := scope
  rw [Scope.innermost?]
  induction frames with
  | nil => rfl
  | cons frame frames ih =>
    have hpush := under_push store ⟨frames⟩ frame
    rw [Scope.push] at hpush
    rw [hpush, Fields.get?_cover, ih, Scope.Frame.get?_values, List.findSome?_cons]
    cases Fields.get? frame name <;> rfl

/-- The plain state answers as the scope over the state does, also below a bound value and past its
end. -/
theorem get?_under (store : Store) (scope : Scope) (path : Path) :
    (store.under scope).get? path = scope.overlay store.get? path := by
  obtain ⟨segments⟩ := path
  cases segments with
  | nil => rfl
  | cons segment rest =>
    cases segment with
    | index i => rfl
    | key name =>
      rw [Scope.overlay, Scope.lookup_key, get?_key, get?_values_under]
      cases scope.innermost? name <;> rfl

theorem get?_under_eq_overlay (store : Store) (scope : Scope) :
    (store.under scope).get? = scope.overlay store.get? :=
  funext (store.get?_under scope)

/-- A frame does not matter for a path whose first key it does not bind. -/
theorem get?_under_push {scope : Scope} {frame : Scope.Frame} {path : Path} (store : Store)
    (h : ∀ name, path.firstKey? = some name → Fields.get? frame name = none) :
    (store.under scope).get? path = (store.under (scope.push frame)).get? path := by
  obtain ⟨segments⟩ := path
  cases segments with
  | nil => rfl
  | cons segment rest =>
    cases segment with
    | index i => rfl
    | key name =>
      have hvalue : Fields.get? (store.under (scope.push frame)).values name =
          Fields.get? (store.under scope).values name := by
        rw [under_push, Fields.get?_cover, Scope.Frame.get?_values, h name rfl]
        rfl
      rw [get?_key, get?_key, hvalue]

end Store

/-- A reader answers, for the text of a path, what the plain state has there. -/
theorem Recorder.read_under (recorder : Recorder) (text : String) :
    (recorder.read text).1 = (recorder.state.under recorder.scope).read text := by
  rw [Store.read]
  cases htext : Path.ofText? text with
  | none => rw [read, htext]; rfl
  | some path => rw [read_of_ofText? htext, Option.bind_some, Store.get?_under]

theorem Scope.pop_push (scope : Scope) (frame : Frame) : (scope.push frame).pop = scope :=
  rfl

/-- Frames that are taken off again leave the scope as it was. -/
theorem Scope.iterate_pop_push (scope : Scope) (frames : List Frame) :
    pop^[frames.length] (frames.foldl push scope) = scope := by
  induction frames generalizing scope with
  | nil => rfl
  | cons frame frames ih =>
    rw [List.foldl_cons, List.length_cons, Function.iterate_succ_apply', ih, pop_push]

namespace Expr

/-- What an expression gives: its value, its text as a template and its truth. -/
structure Results where
  value : Value
  filled : List Char
  truth : Bool

/-- What an expression gives within a scope over a state. -/
def results (scope : Scope) (store : Store) (text : List Char) : Results where
  value := (eval scope text).value store.get?
  filled := (fill scope text).value store.get?
  truth := (holds scope text).value store.get?

/-- What an expression gives when each question is put to a reader by the text of its path. -/
def observed (scope : Scope) (store : Store) (text : List Char) : Results where
  value := (Recorder.observe scope store (eval .empty text)).1
  filled := (Recorder.observe scope store (fill .empty text)).1
  truth := (Recorder.observe scope store (holds .empty text)).1

/-- The places that an expression asks a plain state for, be it as a value, as a template or as a
condition. -/
def asked (store : Store) (text : List Char) : List Path :=
  (eval .empty text).paths store.get? ++ (fill .empty text).paths store.get? ++
    (holds .empty text).paths store.get?

theorem observed_eq_results (scope : Scope) (store : Store) (text : List Char) :
    observed scope store text = results scope store text := by
  simp only [observed, results, Recorder.observe_eval, Recorder.observe_fill,
    Recorder.observe_holds, Reading.run]

/-- Evaluation within a scope is evaluation outside of all iterations over the plain state. -/
theorem results_eq_under (scope : Scope) (store : Store) (text : List Char) :
    results scope store text = results .empty (store.under scope) text := by
  simp only [results, eval_eq_within scope, fill_eq_within scope, holds_eq_within scope,
    Reading.value_within, Store.get?_under_eq_overlay]

/-- On plain states that agree at the places that it asks for, an expression gives the same. -/
theorem results_eq_of_agree {a b : Store} {text : List Char}
    (h : ∀ path ∈ asked a text, a.get? path = b.get? path) :
    results .empty a text = results .empty b text := by
  simp only [asked, List.forall_mem_append] at h
  obtain ⟨⟨heval, hfill⟩, hholds⟩ := h
  simp only [results, Reading.value_eq_of_agree _ heval, Reading.value_eq_of_agree _ hfill,
    Reading.value_eq_of_agree _ hholds]

/-- A new frame changes what an expression gives only if it asks for a name that the frame binds. -/
theorem results_push {scope : Scope} {store : Store} {text : List Char} {frame : Scope.Frame}
    (h : ∀ path ∈ asked (store.under scope) text, ∀ name, path.firstKey? = some name →
      Fields.get? frame name = none) :
    results (scope.push frame) store text = results scope store text := by
  rw [results_eq_under, results_eq_under scope]
  exact (results_eq_of_agree fun path hpath => store.get?_under_push (h path hpath)).symm

/-- A scope lies over a state like a part of it. The plain state has the value of the innermost
binding under each bound name and the original value under any other one. For the text of a path, a
reader answers what the plain state has there. What an expression gives within the scope, also
through such a reader, it gives outside of all iterations over the plain state. A new frame changes
the values of the names that it binds and no other, and what an expression gives if it asks for one
of them. Frames that are taken off again change nothing. -/
theorem results_under (scope : Scope) (store : Store) :
    (∀ name, Fields.get? (store.under scope).values name =
      ((scope.innermost? name).map Scope.Entry.value).or (Fields.get? store.values name)) ∧
    (∀ reads text, (Recorder.read ⟨scope, store, reads⟩ text).1 =
      (store.under scope).read text) ∧
    (∀ text, results scope store text = results .empty (store.under scope) text ∧
      observed scope store text = results .empty (store.under scope) text) ∧
    (∀ frame : Scope.Frame,
      (∀ name, Fields.get? (store.under (scope.push frame)).values name =
        ((Fields.get? frame name).map Scope.Entry.value).or
          (Fields.get? (store.under scope).values name)) ∧
      ∀ text, (∀ path ∈ asked (store.under scope) text, ∀ name, path.firstKey? = some name →
          Fields.get? frame name = none) →
        results (scope.push frame) store text = results scope store text) ∧
    (∀ (frames : List Scope.Frame) (text : List Char),
      results (Scope.pop^[frames.length] (frames.foldl Scope.push scope)) store text =
        results scope store text) := by
  refine ⟨store.get?_values_under scope, fun reads text => Recorder.read_under _ text,
    fun text => ⟨results_eq_under scope store text, ?_⟩,
    fun frame => ⟨fun name => ?_, fun text => results_push⟩, fun frames text => ?_⟩
  · rw [observed_eq_results, results_eq_under]
  · rw [Store.under_push, Fields.get?_cover, Scope.Frame.get?_values]
  · rw [Scope.iterate_pop_push]

/-- A frame that shadows a name of another one and binds a name that is not asked for. -/
theorem results_under_shadowed :
    let scope := Scope.empty.push [("item", ⟨.object [("name", .string "outer")], none⟩)]
    let inner : Scope.Frame := [("item", ⟨.object [("name", .string "inner")], none⟩)]
    let counter : Scope.Frame := [("index", ⟨.int 1, none⟩)]
    let store := Store.ofValues [("index", .int 7), ("item", .int 0)]
    (results (scope.push inner) store "item.name".toList).value.text = "inner" ∧
      (results (scope.push counter) store "item.name".toList).value.text = "outer" ∧
      (results (scope.push counter).pop store "index".toList).value.text = "7" := by
  intro scope inner counter store
  have hasked : asked (store.under scope) "item.name".toList =
      [(Path.ofKey "item").key "name", (Path.ofKey "item").key "name"] := by decide +kernel
  have hunbound : ∀ path ∈ asked (store.under scope) "item.name".toList, ∀ name,
      path.firstKey? = some name → Fields.get? counter name = none := by
    rw [hasked]
    simp [Path.ofKey, Path.key, Path.firstKey?, counter, Fields.get?]
  obtain ⟨-, -, -, hpush, hpop⟩ := results_under scope store
  refine ⟨?_, ?_, ?_⟩
  · rw [((results_under (scope.push inner) store).2.2.1 _).1]
    decide +kernel
  · rw [(hpush counter).2 _ hunbound]
    decide +kernel
  · have hback := hpop [counter] "index".toList
    refine (congrArg (fun results => results.value.text) hback).trans ?_
    decide +kernel

end Expr

end ScreenDoc
