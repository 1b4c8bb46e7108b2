import ScreenDoc.Store.Basic

/-!
# Computations that read the state

A computation asks for the values at paths, one after the other, and each answer decides how it goes
on. Kept as a tree of questions, it can be run on any state, and the paths that it asks for on a
state are known.

## Main definitions

- `Reading` — a computation that asks for values at paths
- `Reading.value` — its result, given the answers
- `Reading.paths` — the paths it asks for, in order, given the answers

## Design notes

The answers enter only through the questions. So two states that give the same answers to the
questions asked on one of them lead to the same result and the same questions: `value_eq_of_agree`
and `paths_eq_of_agree`.
-/

namespace ScreenDoc

/-- A computation that asks for the values at paths. -/
inductive Reading (α : Type) where
  /-- The result. -/
  | done (result : α)
  /-- A question, and how the computation goes on with the answer. -/
  | ask (path : Path) (next : Option Value → Reading α)

namespace Reading

variable {α β : Type}

/-- A computation followed by another one that depends on its result. -/
def bind : Reading α → (α → Reading β) → Reading β
  | .done a, f => f a
  | .ask path next, f => .ask path fun answer => bind (next answer) f

instance : Monad Reading where
  pure := .done
  bind := bind

/-- The result of a computation, given the answers. -/
def value (answers : Path → Option Value) : Reading α → α
  | .done a => a
  | .ask path next => value answers (next (answers path))

/-- The paths that a computation asks for, in order, given the answers. -/
def paths (answers : Path → Option Value) : Reading α → List Path
  | .done _ => []
  | .ask path next => path :: paths answers (next (answers path))

/-- A computation that also gives the paths that it asked for, in order. -/
def listen : Reading α → Reading (α × List Path)
  | .done a => .done (a, [])
  | .ask path next => .ask path fun answer =>
    (listen (next answer)).bind fun (a, paths) => .done (a, path :: paths)

/-- The result of a computation together with the paths that it asks for, each once, in the order of
the first question. -/
def run (answers : Path → Option Value) (reading : Reading α) : α × List Path :=
  (reading.value answers, (reading.paths answers).eraseDups)

@[simp] theorem pure_eq (a : α) : (pure a : Reading α) = .done a := rfl

@[simp] theorem bind_eq (r : Reading α) (f : α → Reading β) : r >>= f = r.bind f := rfl

@[simp] theorem done_bind (a : α) (f : α → Reading β) : (Reading.done a).bind f = f a := rfl

@[simp] theorem ask_bind (path : Path) (next : Option Value → Reading α) (f : α → Reading β) :
    (Reading.ask path next).bind f = .ask path fun answer => (next answer).bind f := rfl

@[simp] theorem value_bind (answers : Path → Option Value) (r : Reading α) (f : α → Reading β) :
    (r.bind f).value answers = (f (r.value answers)).value answers := by
  induction r with
  | done a => rfl
  | ask path next ih => exact ih (answers path)

@[simp] theorem paths_bind (answers : Path → Option Value) (r : Reading α) (f : α → Reading β) :
    (r.bind f).paths answers =
      r.paths answers ++ (f (r.value answers)).paths answers := by
  induction r with
  | done a => rfl
  | ask path next ih => exact congrArg (path :: ·) (ih (answers path))

@[simp] theorem value_listen (answers : Path → Option Value) (r : Reading α) :
    r.listen.value answers = (r.value answers, r.paths answers) := by
  induction r with
  | done a => rfl
  | ask path next ih => simp [listen, value, paths, ih]

@[simp] theorem paths_listen (answers : Path → Option Value) (r : Reading α) :
    r.listen.paths answers = r.paths answers := by
  induction r with
  | done a => rfl
  | ask path next ih => simp [listen, paths, ih]

/-- The result depends on the answers only at the paths that are asked for. -/
theorem value_eq_of_agree {a b : Path → Option Value} (r : Reading α)
    (h : ∀ path ∈ r.paths a, a path = b path) : r.value a = r.value b := by
  induction r with
  | done x => rfl
  | ask path next ih =>
    have hp : a path = b path := h path List.mem_cons_self
    have hn := ih (a path) fun p hp => h p (List.mem_cons_of_mem _ hp)
    simpa only [value, ← hp] using hn

/-- The questions depend on the answers only at the paths that are asked for. -/
theorem paths_eq_of_agree {a b : Path → Option Value} (r : Reading α)
    (h : ∀ path ∈ r.paths a, a path = b path) : r.paths a = r.paths b := by
  induction r with
  | done x => rfl
  | ask path next ih =>
    have hp : a path = b path := h path List.mem_cons_self
    have hn := ih (a path) fun p hp => h p (List.mem_cons_of_mem _ hp)
    simpa only [paths, ← hp] using congrArg (path :: ·) hn

end Reading

end ScreenDoc
