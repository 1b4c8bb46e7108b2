import ScreenDoc.Proofs.Action.Decoding
import ScreenDoc.Proofs.Expansion.Iteration
import ScreenDoc.Proofs.Expansion.Recorded
import ScreenDoc.Proofs.Expr.Indexing
import ScreenDoc.Proofs.Session.Run
import ScreenDoc.Proofs.Store.Lengthened

/-!
# Arrays that are replaced

A write to the array behind an iteration makes all views anew, if the iteration knows where the
array lives. It does if its text is a path. A text with an expression in its brackets leads to an
array as well, but the iteration does not know to which one.

## Main definitions

- `Expr.place?` — the place that a text with expressions in its brackets leads to
- `Iteration.LivesAt` — the array of an iteration lives at a place in the state
- `Session.Renews` — a write at a path makes all views anew

## Main results

- `Iteration.LivesAt.place?_eq_some_iff` — an iteration knows its array if its text is a path
- `Session.renews_of_shape` — a write to an array that shapes a view makes all views anew
- `Rulebook.renews_of_build` — the arrays that the views of a document are shaped by
-/

namespace ScreenDoc

/-! ### Where arrays live -/

/-- The place in the state that a text leads to within a scope. The expressions in its brackets are
evaluated. -/
def Expr.place? (scope : Scope) (answers : Path → Option Value) (text : List Char) : Option Path :=
  (((normalizePieces (value? scope) (PathText.pieces (Text.trim text))).value answers).bind
    Path.ofChars?).bind scope.sourcePath

/-- The text of a path leads to the place that the path stands for. -/
theorem Expr.place?_of_ofChars? {scope : Scope} {text : List Char} {path : Path}
    (h : Path.ofChars? text = some path) (answers : Path → Option Value) :
    place? scope answers text = scope.sourcePath path := by
  have htrim : Path.ofChars? (Text.trim text) = some path := by
    rw [Path.ofChars?_eq_some_iff] at h ⊢
    rw [Text.trim_eq_self (Text.trimmed_trim text)]
    exact h
  obtain ⟨written, hnormal, hpath⟩ :=
    exists_normalized_of_ofChars? (value? scope) (Text.trimmed_trim text) htrim
  rw [place?, hnormal, Reading.value, Option.bind_some, hpath, Option.bind_some]

namespace Iteration

/-- Whether the text of an iteration has an array as its value, and leads to a place in the state
where this array lives. -/
structure LivesAt (it : Iteration) (state : Store) (array : Path) : Prop where
  place : Expr.place? it.scope state.get? it.settings.items.toList = some array
  items : ∃ items, (Expr.eval it.scope it.settings.items.toList).value state.get? = .array items ∧
    state.get? array = some (.array items)

/-- An iteration knows where its array lives if its text is a path. -/
theorem LivesAt.place?_eq_some_iff {it : Iteration} {state : Store} {array : Path}
    (h : it.LivesAt state array) :
    it.place? = some array ↔ (Path.ofText? it.settings.items).isSome := by
  rw [Iteration.place?]
  cases hpath : Path.ofText? it.settings.items with
  | none => simp
  | some path =>
    rw [Option.bind_some, ← Expr.place?_of_ofChars? hpath state.get?, h.place]
    simp

end Iteration

/-! ### Arrays of texts -/

/-- The texts in an array of texts. -/
def Value.texts? (value : Value) : Option (List String) :=
  value.array?.bind (List.mapM Value.string?)

theorem Value.eq_of_texts? {value : Value} {texts : List String} (h : value.texts? = some texts) :
    value = .array (texts.map .string) := by
  obtain ⟨items, harray, htexts⟩ := Option.bind_eq_some_iff.1 h
  obtain rfl : value = .array items := by
    cases value <;> cases harray
    rfl
  have hitems : items.map id = texts.map .string := by
    refine map_eq_of_mapM htexts fun item text hitem => ?_
    cases item <;> cases hitem
    rfl
  rw [← hitems, List.map_id]

/-- That an array of texts lives at a place can be decided. -/
theorem Iteration.LivesAt.of_texts {it : Iteration} {state : Store} {array : Path}
    (texts : List String)
    (hplace : Expr.place? it.scope state.get? it.settings.items.toList = some array)
    (hvalue : ((Expr.eval it.scope it.settings.items.toList).value state.get?).texts? = some texts)
    (harray : (state.get? array).bind Value.texts? = some texts) : it.LivesAt state array := by
  obtain ⟨value, hget, htexts⟩ := Option.bind_eq_some_iff.1 harray
  refine ⟨hplace, _, Value.eq_of_texts? hvalue, ?_⟩
  rw [hget, Value.eq_of_texts? htexts]

/-! ### Writes to arrays -/

namespace Session

variable {session : Session} {array written : Path} {id : ViewId}

/-- Whether a write at a path makes all views anew. -/
structure Renews (session : Session) (written : Path) : Prop where
  isStructural : session.isStructural written = true
  /-- What is there can be replaced. -/
  exists_set : (session.state.get? written).isSome → ∀ value, ∃ update,
    session.state.set written value = .ok update
  /-- Once the state has taken a value, the document is expanded anew. -/
  setPath_eq : ∀ value update, session.state.set written value = .ok update →
    session.setPath written value = session.renewal update

/-- A write to an array that shapes a view, or to what the array is a part of, makes all views
anew. -/
theorem renews_of_shape (hshape : ⟨array, .shape⟩ ∈ session.index.dependenciesOf id)
    (hrooted : written.firstKey?.isSome) (hpart : array.startsWith written) :
    session.Renews written := by
  have hreshaped : id ∈ session.index.reshaped written :=
    DependencyIndex.mem_select.2 ⟨hrooted, ⟨array, .shape⟩,
      DependencyIndex.mem_entries.2 hshape, rfl, hpart⟩
  have hstructural : session.isStructural written = true := by
    rw [isStructural, Bool.not_eq_true', List.isEmpty_eq_false_iff]
    exact List.ne_nil_of_mem hreshaped
  refine ⟨hstructural, fun hvalue value => Store.exists_set_of_get? hvalue value, ?_⟩
  intro value update hset
  refine setPath_eq_renewal hset ?_
  rw [needsRenewal, hstructural, Bool.true_or]

end Session

namespace Rulebook

variable {rulebook : Rulebook} {document : Document} {state : Store} {tree : ViewTree}
  {index : DependencyIndex}

/-- A view depends on the arrays that the iterations seen in it know, and on no others, and a write
to such an array makes all views anew. An iteration whose array lives in the state knows it if the
text of the iteration is a path. -/
theorem renews_of_build (hbuild : rulebook.build document state true = .ok (tree, index)) :
    (document.iterations state).length = tree.size ∧
      ∀ id its, (document.iterations state)[id]? = some its →
        (∀ array, ⟨array, .shape⟩ ∈ index.dependenciesOf id ↔
          ∃ it ∈ its, it.place? = some array) ∧
        (∀ array, ⟨array, .shape⟩ ∈ index.dependenciesOf id →
          ∀ session : Session, session.index = index →
            ∀ written, written.firstKey?.isSome → array.startsWith written →
              session.Renews written) ∧
        ∀ it ∈ its, ∀ array, it.LivesAt state array →
          (it.place? = some array ↔ (Path.ofText? it.settings.items).isSome) := by
  obtain ⟨hlength, hviews⟩ := shapes_of_build hbuild
  refine ⟨hlength, fun id its hits => ⟨(hviews id its hits).2, ?_, ?_⟩⟩
  · rintro array hshape session rfl written hrooted hpart
    exact Session.renews_of_shape hshape hrooted hpart
  · intro it _ array hlives
    exact hlives.place?_eq_some_iff

/-- An iteration that binds a name, with the usual settings. -/
def iterating (items name : String) : ForEachSettings :=
  ⟨none, items, name, "index", .vertical, none, none, none⟩

/-- A document with two rows of texts and the number of one of them, in which an iteration shows
something for each of its items. -/
def listing (items : String) (template : Node) : Document :=
  { Document.ofTexts [] [("i", .int 0),
      ("rows", .array [.array [.string "a"], .array [.string "b", .string "c"]])] with
    root.children := [.forEach (iterating items "row") template none] }

/-- A text that is shown for each item of a row. -/
def cells : Node :=
  .forEach (iterating "row" "cell")
    (.component { Leaf.ofType "text" with text := some "$\x7bcell\x7d" }) none

/-- The iteration over the first row of a listing of all rows. -/
def firstRow : Iteration :=
  ⟨Scope.empty.atItem (iterating "rows" "row") (some (.ofKey "rows")) (.array [.string "a"], 0),
    iterating "row" "cell"⟩

/-- An iteration over the items of an item knows where they live: a write at the first row makes all
views anew. -/
theorem renews_of_build_rows :
    let document := listing "rows" cells
    let array := (Path.ofKey "rows").index 0
    ∃ session, Session.start document .standard = .ok session ∧ session.tree.size = 7 ∧
      (document.iterations session.state)[2]? = some [firstRow] ∧
      firstRow.LivesAt session.state array ∧ ⟨array, .shape⟩ ∈ session.index.dependenciesOf 2 ∧
      session.Renews array := by
  intro document array
  have hsize : (Session.start document .standard).toOption.any
      (fun session => decide (session.tree.size = 7)) = true := by
    decide +kernel
  obtain ⟨session, hstart, hsize⟩ := exists_of_any_toOption hsize
  obtain ⟨-, -, hbuild⟩ := Session.build_of_start hstart
  have hview : (document.iterations (.ofValues document.state))[2]? = some [firstRow] := rfl
  have hlives : firstRow.LivesAt (.ofValues document.state) array :=
    .of_texts ["a"] (by decide +kernel) (by decide +kernel) (by decide +kernel)
  obtain ⟨hshapes, hrenews, hknown⟩ := (renews_of_build hbuild).2 2 [firstRow] hview
  have hplace := (hknown firstRow List.mem_cons_self array hlives).2 (by decide +kernel)
  have hshape := (hshapes array).2 ⟨firstRow, List.mem_cons_self, hplace⟩
  rw [← Session.state_of_start hstart] at hview hlives
  exact ⟨session, hstart, of_decide_eq_true hsize, hview, hlives, hshape,
    hrenews array hshape session rfl array rfl (by decide +kernel)⟩

/-- An iteration over the row at a computed position does not know where this row lives. -/
theorem not_shape_of_build_computedRow :
    ¬ ∀ (document : Document) (state : Store) (tree : ViewTree) (index : DependencyIndex)
        (id : ViewId) (its : List Iteration) (it : Iteration) (array : Path),
      standard.build document state true = .ok (tree, index) →
        (document.iterations state)[id]? = some its → it ∈ its → it.LivesAt state array →
          ⟨array, .shape⟩ ∈ index.dependenciesOf id := by
  intro hall
  let document := listing "rows[i]" (.component (Leaf.ofType "text"))
  let it : Iteration := ⟨.empty, iterating "rows[i]" "row"⟩
  have hfacts : (standard.build document (.ofValues document.state) true).toOption.any
      (fun built => decide
        (⟨(Path.ofKey "rows").index 0, .shape⟩ ∉ built.2.dependenciesOf 1)) = true := by
    decide +kernel
  obtain ⟨⟨tree, index⟩, hbuild, hnot⟩ := exists_of_any_toOption hfacts
  have hview : (document.iterations (.ofValues document.state))[1]? = some [it] := by
    have hchildren : document.root.children =
        [.forEach it.settings (.component (Leaf.ofType "text")) none] := rfl
    rw [Document.iterations, hchildren, Node.iterationsOfAll, Node.iterations_forEach_none]
    rfl
  have hlives : it.LivesAt (.ofValues document.state) ((Path.ofKey "rows").index 0) :=
    .of_texts ["a"] (by decide +kernel) (by decide +kernel) (by decide +kernel)
  exact of_decide_eq_true hnot
    (hall document _ tree index 1 [it] it _ hbuild hview List.mem_cons_self hlives)

end Rulebook

end ScreenDoc
