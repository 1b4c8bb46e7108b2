import Mathlib.Data.List.Basic
import ScreenDoc.Proofs.Expr.Quiet
import ScreenDoc.Proofs.Expr.Within

/-!
# Placeholders

A template is filled in placeholder by placeholder, from the left, in one pass. A placeholder ends
with the first brace that its body does not close itself, where braces within quotation marks do not
count. What it is replaced by depends on its body alone, and is not looked at again.

## Main definitions

- `Expr.Closed` — the texts in which quotations are closed and brackets match outside of them
- `Template.placeholder`, `Template.assemble` — a template put together from its parts
- `Template.Unclosed` — an opener that no brace closes, and all that follows it
- `Expr.shown` — the text of a value, nothing for no value

## Main results

- `Expr.closePlaceholder?_eq_some_iff` — where a placeholder ends
- `Template.pieces_assemble` — a template falls into the parts that it was put together from
- `Expr.fill_assemble` — what becomes of a template
-/

namespace ScreenDoc

/-! ### Closed texts -/

namespace Expr

/-- The texts in which every quotation is closed and, outside of quotations, every bracket. -/
inductive Closed (opening closing : Char) : List Char → Prop where
  | nil : Closed opening closing []
  | char {c : Char} {rest : List Char} (hquote : isQuote c = false) (hopening : c ≠ opening)
      (hclosing : c ≠ closing) (hrest : Closed opening closing rest) :
      Closed opening closing (c :: rest)
  | quoted {q : Char} {inside rest : List Char} (hquote : isQuote q) (hinside : q ∉ inside)
      (hrest : Closed opening closing rest) : Closed opening closing (q :: (inside ++ q :: rest))
  | group {inside rest : List Char} (hinside : Closed opening closing inside)
      (hrest : Closed opening closing rest) :
      Closed opening closing (opening :: (inside ++ closing :: rest))

namespace Closed

variable {opening closing : Char} {a b : List Char}

theorem append (ha : Closed opening closing a) (hb : Closed opening closing b) :
    Closed opening closing (a ++ b) := by
  induction ha with
  | nil => exact hb
  | char hquote hopening hclosing _ ih => exact .char hquote hopening hclosing ih
  | quoted hquote hinside _ ih =>
    rw [List.cons_append, List.append_assoc, List.cons_append]
    exact .quoted hquote hinside ih
  | group hinside _ _ ih =>
    rw [List.cons_append, List.append_assoc, List.cons_append]
    exact .group hinside ih

theorem of_forall (h : ∀ c ∈ a, isQuote c = false ∧ c ≠ opening ∧ c ≠ closing) :
    Closed opening closing a := by
  induction a with
  | nil => exact .nil
  | cons c rest ih =>
    obtain ⟨⟨hquote, hopening, hclosing⟩, hrest⟩ := List.forall_mem_cons.mp h
    exact .char hquote hopening hclosing (ih hrest)

end Closed

/-- A text that closes a number of brackets which are open in front of it, and is closed in
between. -/
def Closing (closed : List Char → Prop) (closing : Char) : Nat → List Char → Prop
  | 0, text => closed text
  | depth + 1, text => ∃ inside rest, text = inside ++ closing :: rest ∧
    closed inside ∧ Closing closed closing depth rest

namespace Closing

variable {closed : List Char → Prop} {opening closing : Char} {depth : Nat}
  {front text : List Char}

theorem append (h : Closing closed closing depth text)
    (hfront : ∀ rest, closed rest → closed (front ++ rest)) :
    Closing closed closing depth (front ++ text) := by
  cases depth with
  | zero => exact hfront text h
  | succ depth =>
    obtain ⟨inside, rest, rfl, hinside, hrest⟩ := h
    exact ⟨front ++ inside, rest, (List.append_assoc front inside _).symm, hfront inside hinside,
      hrest⟩

theorem group (h : Closing closed closing (depth + 1) text)
    (hgroup : ∀ inside rest, closed inside → closed rest →
      closed (opening :: (inside ++ closing :: rest))) :
    Closing closed closing depth (opening :: text) := by
  obtain ⟨inside, rest, rfl, hinside, hrest⟩ := h
  have hfront (others : List Char) (hothers : closed others) :
      closed (opening :: (inside ++ [closing]) ++ others) := by
    rw [List.cons_append, List.append_assoc, List.singleton_append]
    exact hgroup inside others hinside hothers
  have happend := hrest.append hfront
  rwa [List.cons_append, List.append_assoc, List.singleton_append] at happend

end Closing

/-! ### The end of a placeholder -/

theorem closePlaceholder?_quoted {q : Char} {inside : List Char} (h : q ∉ inside) (depth : Nat)
    (rest : List Char) :
    closePlaceholder? (some q) depth (inside ++ q :: rest) =
      (closePlaceholder? none depth rest).map fun (body, after) =>
        (inside ++ q :: body, after) := by
  induction inside with
  | nil => rw [List.nil_append, closePlaceholder?, if_pos rfl]; rfl
  | cons c inside ih =>
    obtain ⟨hc, hinside⟩ := not_or.mp (mt List.mem_cons.mpr h)
    rw [List.cons_append, closePlaceholder?, if_neg (Ne.symm hc), ih hinside, Option.map_map]
    rfl

/-- The scan for the end of a placeholder passes over closed text. -/
theorem closePlaceholder?_closed {inside : List Char} (h : Closed '\x7b' '\x7d' inside)
    (depth : Nat) (rest : List Char) :
    closePlaceholder? none depth (inside ++ rest) =
      (closePlaceholder? none depth rest).map fun (body, after) => (inside ++ body, after) := by
  induction h generalizing depth rest with
  | nil => simp
  | @char c others hquote hopening hclosing _ ih =>
    rw [List.cons_append, closePlaceholder?]
    simp only [hquote, hopening, hclosing, decide_false, Bool.false_and, Bool.false_eq_true,
      if_false, ih, Option.map_map]
    rfl
  | @quoted q quotation others hquote hinside _ ih =>
    have hopening : q ≠ '\x7b' := Text.ne_of_class hquote (by decide)
    have hclosing : q ≠ '\x7d' := Text.ne_of_class hquote (by decide)
    rw [List.cons_append, List.append_assoc, List.cons_append, closePlaceholder?]
    simp only [hquote, hopening, hclosing, decide_false, Bool.false_and, Bool.false_eq_true,
      if_false, if_true, closePlaceholder?_quoted hinside, ih, Option.map_map]
    congr 1
    funext parts
    simp
  | @group first others _ _ ihfirst ihothers =>
    have hdeep : ¬depth + 1 = 0 := Nat.succ_ne_zero depth
    have hquote : isQuote '\x7b' = false ∧ isQuote '\x7d' = false := by decide
    rw [List.cons_append, List.append_assoc, closePlaceholder?]
    simp only [hquote.1, show ¬('\x7b' = '\x7d') by decide, decide_false, Bool.false_and,
      Bool.false_eq_true, if_false, if_true, ihfirst]
    rw [List.cons_append, closePlaceholder?]
    simp only [hquote.2, hdeep, show ¬('\x7d' = '\x7b') by decide, decide_false, Bool.and_false,
      Bool.false_eq_true, if_false, if_true, Nat.add_sub_cancel, ihothers, Option.map_map]
    congr 1
    funext parts
    simp

/-- What the scan has passed over when it stops, given the open quotation mark, which is closed first,
and the number of open braces. -/
def Passed : Option Char → Nat → List Char → Prop
  | none, depth, text => Closing (Closed '\x7b' '\x7d') '\x7d' depth text
  | some q, depth, text => ∃ inside rest, text = inside ++ q :: rest ∧ q ∉ inside ∧
    Closing (Closed '\x7b' '\x7d') '\x7d' depth rest

/-- One more character in front, which does not end the scan. -/
theorem Passed.cons {c : Char} {depth : Nat} {text : List Char} (hend : ¬(c = '\x7d' ∧ depth = 0))
    (h : Passed (if isQuote c then some c else none)
      (if c = '\x7b' then depth + 1 else if c = '\x7d' then depth - 1 else depth) text) :
    Passed none depth (c :: text) := by
  by_cases hquote : isQuote c
  · have hopening : c ≠ '\x7b' := Text.ne_of_class hquote (by decide)
    have hclosing : c ≠ '\x7d' := Text.ne_of_class hquote (by decide)
    rw [if_pos hquote, if_neg hopening, if_neg hclosing] at h
    obtain ⟨inside, rest, rfl, hinside, hrest⟩ := h
    have happend := hrest.append fun _ => (Closed.quoted hquote hinside .nil).append
    rwa [List.cons_append, List.append_assoc, List.singleton_append] at happend
  · rw [if_neg hquote] at h
    by_cases hopening : c = '\x7b'
    · rw [if_pos hopening] at h
      rw [hopening]
      exact Closing.group h fun _ _ => .group
    · rw [if_neg hopening] at h
      by_cases hclosing : c = '\x7d'
      · rw [if_pos hclosing] at h
        cases depth with
        | zero => exact absurd ⟨hclosing, rfl⟩ hend
        | succ depth => exact ⟨[], text, by rw [hclosing]; rfl, .nil, h⟩
      · rw [if_neg hclosing] at h
        have hchar : Closed '\x7b' '\x7d' [c] :=
          .char (Bool.eq_false_iff.mpr hquote) hopening hclosing .nil
        exact Closing.append h fun _ => hchar.append

theorem passed_of_closePlaceholder? {quote : Option Char} {depth : Nat}
    {text body after : List Char} (h : closePlaceholder? quote depth text = some (body, after)) :
    text = body ++ '\x7d' :: after ∧ Passed quote depth body := by
  induction text generalizing quote depth body with
  | nil => cases quote <;> cases h
  | cons c text ih =>
    cases quote with
    | some q =>
      rw [closePlaceholder?, Option.map_eq_some_iff] at h
      obtain ⟨⟨body, after⟩, hbody, heq⟩ := h
      cases heq
      by_cases hc : c = q
      · rw [if_pos hc] at hbody
        obtain ⟨rfl, hpassed⟩ := ih hbody
        exact ⟨rfl, [], body, by rw [hc]; rfl, List.not_mem_nil, hpassed⟩
      · rw [if_neg hc] at hbody
        obtain ⟨rfl, inside, rest, rfl, hinside, hpassed⟩ := ih hbody
        refine ⟨rfl, c :: inside, rest, rfl, ?_, hpassed⟩
        rw [List.mem_cons, not_or]
        exact ⟨Ne.symm hc, hinside⟩
    | none =>
      rw [closePlaceholder?] at h
      split at h
      · next hend =>
        obtain ⟨hc, hdepth⟩ := Bool.and_eq_true_iff.mp hend
        cases h
        rw [of_decide_eq_true hc, of_decide_eq_true hdepth]
        exact ⟨rfl, .nil⟩
      · next hend =>
        obtain ⟨⟨body, after⟩, hbody, heq⟩ := Option.map_eq_some_iff.mp h
        cases heq
        obtain ⟨rfl, hpassed⟩ := ih hbody
        exact ⟨rfl, hpassed.cons (by simpa using hend)⟩

/-- A placeholder ends with the first brace that its body does not close itself. -/
theorem closePlaceholder?_eq_some_iff {text body after : List Char} :
    closePlaceholder? none 0 text = some (body, after) ↔
      text = body ++ '\x7d' :: after ∧ Closed '\x7b' '\x7d' body := by
  constructor
  · intro h
    exact passed_of_closePlaceholder? h
  · rintro ⟨rfl, hclosed⟩
    rw [closePlaceholder?_closed hclosed]
    simp [closePlaceholder?]

end Expr

/-! ### Openers -/

namespace Text

theorem includes_iff {pattern text : List Char} : includes pattern text ↔ pattern <:+: text := by
  rw [includes]
  induction text with
  | nil =>
    rw [cut?, List.infix_nil]
    cases pattern <;> simp
  | cons c rest ih =>
    rw [cut?, List.infix_cons_iff]
    by_cases hstarts : pattern.isPrefixOf (c :: rest)
    · simp [hstarts, List.isPrefixOf_iff_prefix.mp hstarts]
    · have hnot : ¬pattern <+: c :: rest := mt List.isPrefixOf_iff_prefix.mpr hstarts
      rw [if_neg hstarts, Option.isSome_map, ih]
      simp [hnot]

/-- Two texts without an opener have none together unless it comes about where they meet. -/
theorem not_opener_infix_append {a b : List Char} (ha : ¬Expr.opener <:+: a)
    (hb : ¬Expr.opener <:+: b) (hmeet : ∀ c ∈ b.head?, c ≠ '\x7b') :
    ¬Expr.opener <:+: a ++ b := by
  induction a with
  | nil => exact hb
  | cons c a ih =>
    rw [List.infix_cons_iff, not_or] at ha
    obtain ⟨hfirst, ha⟩ := ha
    rw [List.cons_append, List.infix_cons_iff, not_or]
    refine ⟨?_, ih ha⟩
    cases a with
    | nil =>
      cases b with
      | nil => simp [Expr.opener]
      | cons d b =>
        have hd : d ≠ '\x7b' := hmeet d rfl
        simp [Expr.opener, hd.symm]
    | cons d a =>
      simp only [Expr.opener, List.cons_prefix_cons, List.nil_prefix, and_true] at hfirst
      simpa [Expr.opener] using hfirst

/-- A text without an opener is cut at the one that follows it, even if it ends like one begins. -/
theorem cut?_opener {run : List Char} (rest : List Char) (h : ¬Expr.opener <:+: run) :
    cut? Expr.opener (run ++ (Expr.opener ++ rest)) = some (run, rest) := by
  induction run with
  | nil => simp [cut?, Expr.opener]
  | cons c run ih =>
    rw [List.infix_cons_iff, not_or] at h
    obtain ⟨hfirst, hrun⟩ := h
    have hstarts : ¬Expr.opener.isPrefixOf (c :: (run ++ (Expr.opener ++ rest))) := by
      cases run with
      | nil => simp [Expr.opener]
      | cons d run =>
        simp only [Expr.opener, List.cons_prefix_cons, List.nil_prefix, and_true] at hfirst
        simpa [Expr.opener, List.isPrefixOf] using hfirst
    rw [List.cons_append, cut?, if_neg hstarts, ih hrun, Option.map_some]

end Text

/-! ### Templates from their parts -/

namespace Template

open ScreenDoc.Expr (opener Closed)

/-- A placeholder. -/
def placeholder (body : List Char) : List Char :=
  opener ++ (body ++ ['\x7d'])

/-- The body of a placeholder, and the text between it and the next one. -/
structure Part where
  body : List Char
  text : List Char

/-- A part that can be read off a template again. -/
structure Part.IsProper (part : Part) : Prop where
  closed : Closed '\x7b' '\x7d' part.body
  plain : ¬opener <:+: part.text

/-- A template: text, and placeholders with text after each of them. -/
def assemble (first : List Char) (parts : List Part) : List Char :=
  first ++ parts.flatMap fun part => placeholder part.body ++ part.text

/-- An opener and what follows it, where no brace closes the placeholder. -/
def Unclosed (tail : List Char) : Prop :=
  ∃ rest, tail = opener ++ rest ∧
    ∀ body after, rest = body ++ '\x7d' :: after → ¬Closed '\x7b' '\x7d' body

theorem pieces_of_cut?_eq_none {template : List Char} (h : Text.cut? opener template = none) :
    pieces template = [.text template] := by
  rw [pieces]
  split
  · rfl
  · next before rest hsome =>
    rw [h] at hsome
    cases hsome

theorem pieces_of_cut? {template before rest : List Char}
    (h : Text.cut? opener template = some (before, rest)) :
    pieces template =
      match Expr.closePlaceholder? none 0 rest with
      | none => [.text template]
      | some (body, after) => .text before :: .placeholder body :: pieces after := by
  rw [pieces]
  split
  · next hnone =>
    rw [h] at hnone
    cases hnone
  · next before' rest' hsome =>
    rw [h] at hsome
    cases hsome
    split
    · next hclose => rw [hclose]
    · next body after hclose => rw [hclose]

variable {first tail : List Char}

/-- Text without an opener is a single piece, and so is what follows an opener that is not closed. -/
theorem pieces_tail (hfirst : ¬opener <:+: first) (htail : tail = [] ∨ Unclosed tail) :
    pieces (first ++ tail) = [.text (first ++ tail)] := by
  rcases htail with rfl | ⟨rest, rfl, hopen⟩
  · refine pieces_of_cut?_eq_none ?_
    rw [List.append_nil, ← Option.not_isSome_iff_eq_none]
    exact mt Text.includes_iff.mp hfirst
  · have hclose : Expr.closePlaceholder? none 0 rest = none := by
      rw [Option.eq_none_iff_forall_not_mem]
      rintro ⟨body, after⟩ hsome
      obtain ⟨htext, hclosed⟩ := Expr.closePlaceholder?_eq_some_iff.mp hsome
      exact hopen body after htext hclosed
    rw [pieces_of_cut? (Text.cut?_opener rest hfirst), hclose]

theorem pieces_placeholder {body : List Char} (after : List Char) (hfirst : ¬opener <:+: first)
    (hbody : Closed '\x7b' '\x7d' body) :
    pieces (first ++ (placeholder body ++ after)) =
      .text first :: .placeholder body :: pieces after := by
  have htext : first ++ (placeholder body ++ after) =
      first ++ (opener ++ (body ++ '\x7d' :: after)) := by
    simp [placeholder]
  rw [htext, pieces_of_cut? (Text.cut?_opener _ hfirst),
    Expr.closePlaceholder?_eq_some_iff.mpr ⟨rfl, hbody⟩]

/-- The pieces of a template that is put together from text and placeholders. -/
def piecesOf (tail first : List Char) : List Part → List Piece
  | [] => [.text (first ++ tail)]
  | part :: parts => .text first :: .placeholder part.body :: piecesOf tail part.text parts

/-- A template falls into the parts that it was put together from. -/
theorem pieces_assemble {parts : List Part} (hfirst : ¬opener <:+: first)
    (hparts : ∀ part ∈ parts, part.IsProper) (htail : tail = [] ∨ Unclosed tail) :
    pieces (assemble first parts ++ tail) = piecesOf tail first parts := by
  induction parts generalizing first with
  | nil =>
    rw [assemble, List.flatMap_nil, List.append_nil]
    exact pieces_tail hfirst htail
  | cons part parts ih =>
    obtain ⟨hpart, hparts⟩ := List.forall_mem_cons.mp hparts
    have hassemble : assemble first (part :: parts) ++ tail =
        first ++ (placeholder part.body ++ (assemble part.text parts ++ tail)) := by
      simp [assemble]
    rw [hassemble, pieces_placeholder _ hfirst hpart.closed, ih hpart.plain hparts, piecesOf]

end Template

/-! ### Filled templates -/

namespace Expr

open Template (Part placeholder assemble piecesOf Unclosed)

/-- The text of a value, nothing for no value. -/
def shown : Option Value → List Char
  | some value => value.text.toList
  | none => []

theorem fillPieces_placeholder_cons (sub : Evaluation) (body : List Char)
    (rest : List Template.Piece) :
    fillPieces sub (.placeholder body :: rest) = (sub body).bind fun value =>
      (fillPieces sub rest).bind fun text => .done (shown value ++ text) := by
  rw [fillPieces]
  congr 1
  funext value
  cases value <;> rfl

/-- A placeholder alone is replaced by the text of its value. -/
theorem fill_placeholder (scope : Scope) {body : List Char} (h : Closed '\x7b' '\x7d' body) :
    fill scope (placeholder body) = (value? scope body).bind fun value => .done (shown value) := by
  have hnot : ¬opener <:+: [] := by decide
  have hproper : ∀ part ∈ [⟨body, []⟩], Part.IsProper part :=
    List.forall_mem_singleton.mpr ⟨h, hnot⟩
  have hpieces := Template.pieces_assemble hnot hproper (.inl rfl)
  simp only [assemble, List.flatMap_cons, List.flatMap_nil, List.append_nil, List.nil_append,
    piecesOf] at hpieces
  rw [fill, fillWith, hpieces, fillPieces, fillPieces_placeholder_cons]
  simp only [fillPieces, Reading.done_bind, List.append_nil, List.nil_append]
  exact Reading.bind_done _

/-- What becomes of the pieces of a template: the text of a value for each placeholder, in order.
Nothing is asked but what the bodies ask. -/
theorem fillPieces_piecesOf (sub : Evaluation) (answers : Path → Option Value)
    (tail first : List Char) (parts : List Part) :
    (fillPieces sub (piecesOf tail first parts)).value answers =
        first ++ (parts.flatMap fun part => shown ((sub part.body).value answers) ++ part.text) ++
          tail ∧
      (fillPieces sub (piecesOf tail first parts)).paths answers =
        parts.flatMap fun part => (sub part.body).paths answers := by
  induction parts generalizing first with
  | nil => simp [piecesOf, fillPieces, Reading.value, Reading.paths]
  | cons part parts ih =>
    obtain ⟨hvalue, hpaths⟩ := ih part.text
    rw [piecesOf, fillPieces, fillPieces_placeholder_cons]
    constructor
    · simp [Reading.value, hvalue]
    · simp [Reading.paths, hpaths]

/-- A template is filled in placeholder by placeholder. Each one gives what it gives alone, the text
of the value of its body. The text between is kept, and so are an opener that is not closed and all
that follows it. Nothing is read but what the bodies read, whatever text has been put in. -/
theorem fill_assemble (scope : Scope) (store : Store) {first tail : List Char} {parts : List Part}
    (hfirst : ¬opener <:+: first) (hparts : ∀ part ∈ parts, part.IsProper)
    (htail : tail = [] ∨ Unclosed tail) :
    (fill scope (assemble first parts ++ tail)).value store.get? =
        first ++ (parts.flatMap fun part =>
          (fill scope (placeholder part.body)).value store.get? ++ part.text) ++ tail ∧
      (fill scope (assemble first parts ++ tail)).paths store.get? =
        (parts.flatMap fun part => (fill scope (placeholder part.body)).paths store.get?) ∧
      ∀ part ∈ parts, (fill scope (placeholder part.body)).value store.get? =
        shown ((value? scope part.body).value store.get?) := by
  have halone {part : Part} (hpart : part ∈ parts) :
      (fill scope (placeholder part.body)).value store.get? =
          shown ((value? scope part.body).value store.get?) ∧
        (fill scope (placeholder part.body)).paths store.get? =
          (value? scope part.body).paths store.get? := by
    rw [fill_placeholder scope (hparts part hpart).closed, Reading.value_bind, Reading.paths_bind]
    exact ⟨rfl, List.append_nil _⟩
  have hpieces := Template.pieces_assemble hfirst hparts htail
  obtain ⟨hvalue, hpaths⟩ := fillPieces_piecesOf (value? scope) store.get? tail first parts
  rw [fill, fillWith, hpieces, hvalue, hpaths]
  refine ⟨?_, ?_, fun part hpart => (halone hpart).1⟩
  · congr 2
    apply List.flatMap_congr
    intro part hpart
    rw [(halone hpart).1]
  · apply List.flatMap_congr
    intro part hpart
    rw [(halone hpart).2]

/-- A store with a text that looks like a placeholder. -/
def lookalike : Store :=
  .ofValues [("name", .string "$\x7bon\x7d"), ("on", .bool true)]

/-- The brace within quotation marks does not end its placeholder, the text of the name is not filled
in, and the last opener is not closed. -/
theorem fill_assemble_lookalike :
    (fill .empty "Hi $\x7bname\x7d, $\x7b'\x7d'\x7d!$\x7bname ".toList).value lookalike.get? =
      "Hi $\x7bon\x7d, \x7d!$\x7bname ".toList := by
  have hfirst : ¬opener <:+: "Hi ".toList := by decide
  have hname : Closed '\x7b' '\x7d' "name".toList := .of_forall (by simp [isQuote])
  have hbrace : Closed '\x7b' '\x7d' ('\x27' :: (['\x7d'] ++ ['\x27'])) :=
    .quoted rfl (by decide) .nil
  have hparts : ∀ part ∈ [⟨"name".toList, ", ".toList⟩, ⟨"'\x7d'".toList, "!".toList⟩],
      Part.IsProper part := by
    simp only [List.forall_mem_cons, List.not_mem_nil, false_implies, implies_true, and_true]
    exact ⟨⟨hname, by decide⟩, hbrace, by decide⟩
  have hopen : Unclosed "$\x7bname ".toList := by
    refine ⟨"name ".toList, rfl, fun body after heq => ?_⟩
    have hmem : '\x7d' ∈ "name ".toList := by rw [heq]; simp
    exact absurd hmem (by decide)
  have hfill := (fill_assemble .empty lookalike hfirst hparts (.inr hopen)).1
  refine hfill.trans ?_
  decide +kernel

end Expr

end ScreenDoc
