import ScreenDoc.Proofs.Expr.Plain
import ScreenDoc.Proofs.Expr.Shorter

/-!
# Indexings

An expression in brackets behind the text of a path is evaluated, whatever it is, and chooses an
item of the array at the path. That is, if the whole text is no ternary. The scan for the operators
of a ternary passes over parentheses but not over brackets, so that a ternary in the brackets is
taken for one whose condition begins in front of them.

## Main definitions

- `Expr.Nested` — the texts in which all brackets are closed

## Main results

- `Expr.indexed?_nested` — the text is split at the bracket that belongs to the last one
- `Expr.readPathText_of_ofChars?` — a path with literal indices is read as it is written
- `Expr.value?_indexed` — the value of an indexing
- `Expr.eval_indexed` — which item that is, and what becomes of a ternary in the brackets
-/

namespace ScreenDoc

namespace Expr

open Token (isNameChar)
open ScreenDoc.Path (StepText IndexText IsKey isKeyChar)

/-! ### Closed brackets -/

/-- The texts in which every bracket is closed. -/
inductive Nested (opening closing : Char) : List Char → Prop where
  | nil : Nested opening closing []
  | char {c : Char} {rest : List Char} (hopening : c ≠ opening) (hclosing : c ≠ closing)
      (hrest : Nested opening closing rest) : Nested opening closing (c :: rest)
  | group {inside rest : List Char} (hinside : Nested opening closing inside)
      (hrest : Nested opening closing rest) :
      Nested opening closing (opening :: (inside ++ closing :: rest))

namespace Nested

variable {opening closing : Char} {a b : List Char}

theorem of_forall_ne (h : ∀ c ∈ a, c ≠ opening ∧ c ≠ closing) : Nested opening closing a := by
  induction a with
  | nil => exact .nil
  | cons c rest ih =>
    obtain ⟨⟨hopening, hclosing⟩, hrest⟩ := List.forall_mem_cons.mp h
    exact .char hopening hclosing (ih hrest)

theorem append (ha : Nested opening closing a) (hb : Nested opening closing b) :
    Nested opening closing (a ++ b) := by
  induction ha with
  | nil => exact hb
  | char hopening hclosing _ ih => exact .char hopening hclosing ih
  | group hinside _ _ ih =>
    rw [List.cons_append, List.append_assoc, List.cons_append]
    exact .group hinside ih

/-- Read backwards, the brackets change their roles. -/
theorem reverse (h : Nested opening closing a) : Nested closing opening a.reverse := by
  induction h with
  | nil => exact .nil
  | char hopening hclosing _ ih =>
    rw [List.reverse_cons]
    exact ih.append (.char hclosing hopening .nil)
  | group _ _ ihinside ihrest =>
    rw [List.reverse_cons, List.reverse_append, List.reverse_cons, List.append_assoc,
      List.append_assoc]
    exact ihrest.append (.group ihinside .nil)

end Nested

/-- The scan for a closing bracket passes over closed ones. -/
theorem closeBracket?_nested {opening closing : Char} {inside : List Char}
    (h : Nested opening closing inside) (hne : opening ≠ closing) (depth : Nat)
    (rest : List Char) :
    closeBracket? opening closing (depth + 1) (inside ++ rest) =
      (closeBracket? opening closing (depth + 1) rest).map fun (body, after) =>
        (inside ++ body, after) := by
  induction h generalizing depth rest with
  | nil => simp
  | @char c others hopening hclosing _ ih =>
    rw [List.cons_append, closeBracket?]
    simp only [hopening, hclosing, decide_false, Bool.false_and, Bool.false_eq_true, if_false, ih,
      Option.map_map]
    rfl
  | @group first others _ _ ihfirst ihothers =>
    have hdeep : ¬depth + 1 + 1 ≤ 1 := by omega
    rw [List.cons_append, List.append_assoc, closeBracket?]
    simp only [hne, decide_false, Bool.false_and, Bool.false_eq_true, if_false, if_true, ihfirst]
    rw [List.cons_append, closeBracket?]
    simp only [hne.symm, hdeep, decide_true, decide_false, Bool.and_false, Bool.false_eq_true,
      if_false, if_true, Nat.add_sub_cancel, ihothers, Option.map_map]
    congr 1
    funext parts
    simp

/-- A text is split at the bracket that belongs to the last one. -/
theorem indexed?_nested (base : List Char) {index : List Char} (h : Nested '[' ']' index) :
    indexed? (base ++ '[' :: (index ++ [']'])) = some (base, index) := by
  have hreverse : (base ++ '[' :: (index ++ [']'])).reverse =
      ']' :: (index.reverse ++ '[' :: base.reverse) := by
    simp
  have hclose := closeBracket?_nested h.reverse (by decide) 0 ('[' :: base.reverse)
  rw [indexed?, hreverse]
  simp [hclose, closeBracket?]

/-! ### Literal indices -/

/-- Between the brackets of a literal index there are blanks, a sign and digits. -/
theorem class_of_indexText {i : Nat} {inside : List Char} (h : IndexText i inside) :
    ∀ c ∈ inside, Text.isBlank c ∨ c = '+' ∨ c.isDigit := by
  obtain ⟨hbefore, hsign, -, hdigits, -, -, hafter⟩ := h
  intro c hc
  simp only [List.mem_append, or_assoc] at hc
  obtain hc | hc | hc | hc := hc
  · exact .inl (hbefore c hc)
  · obtain rfl | rfl := hsign
    · exact absurd hc List.not_mem_nil
    · exact .inr (.inl (List.mem_singleton.mp hc))
  · exact .inr (.inr (hdigits c hc))
  · exact .inl (hafter c hc)

theorem ne_of_indexText {i : Nat} {inside : List Char} (h : IndexText i inside) :
    ∀ c ∈ inside, c ≠ '[' ∧ c ≠ ']' := by
  intro c hc
  rcases class_of_indexText h c hc with hblank | rfl | hdigit
  · exact ⟨Text.ne_of_class hblank (by decide), Text.ne_of_class hblank (by decide)⟩
  · decide
  · exact ⟨Text.ne_of_class hdigit (by decide), Text.ne_of_class hdigit (by decide)⟩

theorem indexText_toDigits {i : Nat} (h : i ≤ Text.maxIndex) : IndexText i (Nat.toDigits 10 i) := by
  have hdigits : ∀ c ∈ Nat.toDigits 10 i, c.isDigit := fun c hc => Path.isDigit_of_mem_toDigits hc
  rw [← Path.index?_trim_eq_some_iff, Text.trim_eq_self (Text.trimmed_of_forall_isDigit hdigits),
    Path.index?_toDigits, if_pos h]

/-- An index is written anew. -/
theorem normalizePieces_bracket (sub : Evaluation) {run inside after others : List Char} {i : Nat}
    (hrun : '[' ∉ run) (hinside : IndexText i inside)
    (hafter : normalizePieces sub (PathText.pieces after) = .done (some others)) :
    normalizePieces sub (PathText.pieces (run ++ '[' :: (inside ++ ']' :: after))) =
      .done (some (run ++ '[' :: (Nat.toDigits 10 i ++ ']' :: others))) := by
  rw [pieces_bracket after hrun (ne_of_indexText hinside)]
  simp only [normalizePieces, Path.index?_trim_eq_some_iff.mpr hinside, withIndex, hafter,
    Reading.done_bind, Option.map_some]
  simp [toString, Nat.toList_repr]

/-- No blank comes to the end when the text after a bracket is exchanged. -/
theorem endsRun_bracket {front front' after others : List Char}
    (h : Text.EndsRun Text.isBlank after.reverse → Text.EndsRun Text.isBlank others.reverse)
    (hfront : Text.EndsRun Text.isBlank (front ++ ']' :: after).reverse) :
    Text.EndsRun Text.isBlank (front' ++ ']' :: others).reverse := by
  rw [List.reverse_append, List.reverse_cons, List.append_assoc] at hfront ⊢
  exact Text.endsRun_append (h hfront.left) (Text.endsRun_cons.mpr (by decide))

/-- The indices of a path are written anew, and all else is kept. The induction is on the steps
after a run without brackets. -/
theorem exists_normalized (sub : Evaluation) {run : List Char} (hrun : '[' ∉ run)
    {steps : List Segment} {parts : List (List Char)} (h : List.Forall₂ StepText steps parts) :
    ∃ others, List.Forall₂ StepText steps others ∧
      normalizePieces sub (PathText.pieces (run ++ parts.flatten)) =
        .done (some (run ++ others.flatten)) ∧
      (Text.EndsRun Text.isBlank (run ++ parts.flatten).reverse →
        Text.EndsRun Text.isBlank (run ++ others.flatten).reverse) := by
  induction h generalizing run with
  | nil =>
    refine ⟨[], .nil, ?_, id⟩
    rw [List.flatten_nil, List.append_nil, pieces_run hrun]
    simp [normalizePieces]
  | @cons step part steps parts hstep _ ih =>
    -- An index ends the run, and the text after it is a text of its own.
    have hindex {run inside : List Char} {i : Nat} (hrun : '[' ∉ run)
        (hinside : IndexText i inside) :
        ∃ others, List.Forall₂ StepText steps others ∧
          normalizePieces sub (PathText.pieces (run ++ '[' :: (inside ++ ']' :: parts.flatten))) =
            .done (some (run ++ '[' :: (Nat.toDigits 10 i ++ ']' :: others.flatten))) ∧
          (Text.EndsRun Text.isBlank (run ++ '[' :: (inside ++ ']' :: parts.flatten)).reverse →
            Text.EndsRun Text.isBlank
              (run ++ '[' :: (Nat.toDigits 10 i ++ ']' :: others.flatten)).reverse) := by
      obtain ⟨others, hothers, hnormal, hends⟩ := @ih [] List.not_mem_nil
      refine ⟨others, hothers, normalizePieces_bracket sub hrun hinside hnormal, fun hblank => ?_⟩
      rw [← List.cons_append, ← List.append_assoc] at hblank ⊢
      exact endsRun_bracket hends hblank
    cases hstep with
    | @key name hname =>
      have hmore : '[' ∉ run ++ '.' :: name := by
        have hnot : '[' ∉ name := fun hmem => absurd (hname.2 _ hmem) (by decide)
        simp [hrun, hnot]
      obtain ⟨others, hothers, hnormal, hends⟩ := ih hmore
      refine ⟨('.' :: name) :: others, .cons (.key hname) hothers, ?_, ?_⟩
      · simpa using hnormal
      · simpa using hends
    | @index i inside hinside =>
      obtain ⟨others, hothers, hnormal, hends⟩ := hindex hrun hinside
      refine ⟨('[' :: (Nat.toDigits 10 i ++ [']'])) :: others,
        .cons (.index (indexText_toDigits hinside.le)) hothers, ?_, ?_⟩
      · simpa using hnormal
      · simpa using hends
    | @dotIndex i inside hinside =>
      have hdot : '[' ∉ run ++ ['.'] := by simp [hrun]
      obtain ⟨others, hothers, hnormal, hends⟩ := hindex hdot hinside
      refine ⟨('.' :: '[' :: (Nat.toDigits 10 i ++ [']'])) :: others,
        .cons (.dotIndex (indexText_toDigits hinside.le)) hothers, ?_, ?_⟩
      · simpa using hnormal
      · simpa using hends

/-- A text that writes a path still does so when its indices are written anew. -/
theorem exists_normalized_of_ofChars? (sub : Evaluation) {text : List Char} {path : Path}
    (htext : Text.Trimmed text) (h : Path.ofChars? text = some path) :
    ∃ written, normalizePieces sub (PathText.pieces text) = .done (some written) ∧
      Path.ofChars? written = some path := by
  have hspelled := Path.ofChars?_eq_some_iff.mp h
  rw [Text.trim_eq_self htext] at hspelled
  cases hspelled with
  | @mk name steps parts hname hsteps =>
    have hrun : '[' ∉ name := fun hmem => absurd (hname.2 _ hmem) (by decide)
    obtain ⟨others, hothers, hnormal, hends⟩ := exists_normalized sub hrun hsteps
    have htrimmed : Text.Trimmed (name ++ others.flatten) :=
      ⟨htext.1.left.append_of_ne_nil hname.1, hends htext.2⟩
    refine ⟨_, hnormal, ?_⟩
    rw [Path.ofChars?_eq_some_iff, Text.trim_eq_self htrimmed]
    exact .mk hname hothers

/-- A path with literal indices is read as it is written. -/
theorem readPathText_of_ofChars? {scope : Scope} (sub : Evaluation) {text : List Char}
    {path : Path} (htext : Text.Trimmed text) (h : Path.ofChars? text = some path) :
    readPathText scope sub text = scope.readPath path := by
  obtain ⟨written, hnormal, hpath⟩ := exists_normalized_of_ofChars? sub htext h
  rw [readPathText, hnormal, Reading.done_bind]
  simp only [Scope.read, hpath]

/-! ### Indexings -/

/-- A key in the text of a path with brackets is a name. -/
theorem isNameChar_of_isPathTail {name rest : List Char} (hname : ∀ c ∈ name, isKeyChar c)
    (h : isPathTail 0 (name ++ rest)) : (∀ c ∈ name, isNameChar c) ∧ isPathTail 0 rest := by
  induction name with
  | nil => exact ⟨fun c hc => absurd hc List.not_mem_nil, h⟩
  | cons c name ih =>
    obtain ⟨hc, hname⟩ := List.forall_mem_cons.mp hname
    simp only [isKeyChar, Bool.and_eq_true, decide_eq_true_eq] at hc
    rw [List.cons_append, isPathTail, if_neg hc.1.2, if_neg hc.2, if_neg (Nat.lt_irrefl 0),
      Bool.and_eq_true] at h
    obtain ⟨hnames, hrest⟩ := ih hname h.2
    refine ⟨List.forall_mem_cons.mpr ⟨?_, hnames⟩, hrest⟩
    have hclass := h.1
    simp only [Bool.or_eq_true, decide_eq_true_eq, hc.1.1, or_false] at hclass
    simpa [isNameChar] using hclass

theorem isInert_of_isNameChar {c : Char} (h : isNameChar c) : isInert c :=
  isInert_of_class (by decide) h

theorem isInert_of_indexText {i : Nat} {inside : List Char} (h : IndexText i inside) :
    ∀ c ∈ inside, isInert c := by
  intro c hc
  rcases class_of_indexText h c hc with hblank | rfl | hdigit
  · exact isInert_of_class (by decide) hblank
  · decide
  · exact isInert_of_isNameChar (Token.isNameChar_of_isDigit hdigit)

theorem isInert_of_forall₂ {steps : List Segment} {parts : List (List Char)}
    (h : List.Forall₂ StepText steps parts) (htail : isPathTail 0 parts.flatten) :
    ∀ c ∈ parts.flatten, isInert c := by
  induction h with
  | nil => exact fun c hc => absurd hc List.not_mem_nil
  | @cons step part steps parts hstep _ ih =>
    have hindex {i : Nat} {inside : List Char} (hinside : IndexText i inside)
        (htail : isPathTail 0 ('[' :: (inside ++ ']' :: parts.flatten))) :
        ∀ c ∈ '[' :: (inside ++ ']' :: parts.flatten), isInert c := by
      rw [isPathTail, if_pos rfl, isPathTail_inside _ (ne_of_indexText hinside)] at htail
      refine List.forall_mem_cons.mpr ⟨by decide, List.forall_mem_append.mpr
        ⟨isInert_of_indexText hinside, List.forall_mem_cons.mpr ⟨by decide, ih htail⟩⟩⟩
    have hdot {rest : List Char} (htail : isPathTail 0 ('.' :: rest)) : isPathTail 0 rest := by
      simpa [isPathTail] using htail
    rw [List.flatten_cons] at htail ⊢
    cases hstep with
    | @key name hname =>
      obtain ⟨hnames, hrest⟩ := isNameChar_of_isPathTail hname.2 (hdot htail)
      exact List.forall_mem_cons.mpr ⟨by decide, List.forall_mem_append.mpr
        ⟨fun c hc => isInert_of_isNameChar (hnames c hc), ih hrest⟩⟩
    | index hinside =>
      rw [List.cons_append, List.append_assoc, List.singleton_append] at htail ⊢
      exact hindex hinside htail
    | dotIndex hinside =>
      rw [List.cons_append, List.cons_append, List.append_assoc, List.singleton_append] at htail ⊢
      exact List.forall_mem_cons.mpr ⟨by decide, hindex hinside (hdot htail)⟩

theorem isBlank_getLast?_of_isPathTail {brackets : Nat} {text : List Char}
    (h : isPathTail brackets text) : ∀ c ∈ text.getLast?, Text.isBlank c = false := by
  fun_induction isPathTail brackets text with
  | case1 => exact fun c hc => absurd hc (by simp)
  | case2 brackets rest ih =>
    cases rest with
    | nil => exact absurd (of_decide_eq_true h) (Nat.succ_ne_zero _)
    | cons => simpa using ih h
  | case3 brackets rest _ ih =>
    cases rest with
    | nil =>
      intro c hc
      cases hc
      decide
    | cons => simpa using ih (Bool.and_eq_true_iff.mp h).2
  | case4 brackets c rest _ _ hpos ih =>
    cases rest with
    | nil => exact absurd (of_decide_eq_true h) (Nat.ne_of_gt hpos)
    | cons => simpa using ih h
  | case5 brackets c rest _ _ hpos ih =>
    obtain ⟨hc, htail⟩ := Bool.and_eq_true_iff.mp h
    cases rest with
    | nil =>
      intro d hd
      cases hd
      have hquiet : isQuiet c := by
        rw [isQuiet, isNameChar, hc, Bool.true_or, Bool.true_or]
      exact isBlank_eq_false_of_isQuiet hquiet
    | cons => simpa using ih htail

theorem trimmed_of_isPathText {base : List Char} (h : isPathText base) : Text.Trimmed base := by
  cases base with
  | nil => cases h
  | cons start rest =>
    obtain ⟨hstart, htail⟩ := Bool.and_eq_true_iff.mp h
    have hfirst : Text.isBlank start = false :=
      isBlank_eq_false_of_isNameChar (Token.isNameChar_of_isNameStart hstart)
    refine ⟨Text.endsRun_cons.mpr hfirst, ?_⟩
    cases rest with
    | nil => exact Text.endsRun_cons.mpr hfirst
    | cons c rest =>
      intro d hd
      rw [List.head?_reverse, List.getLast?_cons_cons] at hd
      exact isBlank_getLast?_of_isPathTail htail d hd

/-- The text of a path with literal indices neither quotes nor asks, and has no blanks around it. -/
theorem isInert_of_isPathText {base : List Char} {path : Path} (hbase : isPathText base)
    (hpath : Path.ofChars? base = some path) : ∀ c ∈ base, isInert c := by
  have hspelled := Path.ofChars?_eq_some_iff.mp hpath
  rw [Text.trim_eq_self (trimmed_of_isPathText hbase)] at hspelled
  cases hspelled with
  | @mk name steps parts hname hsteps =>
    cases name with
    | nil => exact absurd rfl hname.1
    | cons start name =>
      rw [List.cons_append, isPathText, Bool.and_eq_true] at hbase
      obtain ⟨hstart, htail⟩ := hbase
      obtain ⟨hnames, hrest⟩ :=
        isNameChar_of_isPathTail (fun c hc => hname.2 c (List.mem_cons_of_mem _ hc)) htail
      have hfirst : isNameChar start := Token.isNameChar_of_isNameStart hstart
      exact List.forall_mem_cons.mpr ⟨isInert_of_isNameChar hfirst, List.forall_mem_append.mpr
        ⟨fun c hc => isInert_of_isNameChar (hnames c hc), isInert_of_forall₂ hsteps hrest⟩⟩

section Indexing

variable (scope : Scope) {base index : List Char} {path : Path}

/-- The text of an indexing is split at the operators in its brackets, if there are any. -/
theorem operators?_indexed (hinert : ∀ c ∈ base, isInert c) :
    operators? (base ++ '[' :: (index ++ [']'])) =
      (operators? index).map
        (Prod.map (base.length + 1 + ·) (base.length + 1 + ·)) := by
  have hfront : ∀ c ∈ base ++ ['['], isInert c :=
    List.forall_mem_append.mpr ⟨hinert, List.forall_mem_singleton.mpr (by decide)⟩
  rw [List.append_cons, operators?_append hfront, operators?_concat, List.length_append]
  rfl

theorem ternary?_indexed (hinert : ∀ c ∈ base, isInert c) {q colon : Nat}
    (hoperators : operators? index = some (q, colon)) :
    ternary? (base ++ '[' :: (index ++ [']'])) =
      some (Text.trim (base ++ '[' :: index.take q),
        Text.trim ((index.drop (q + 1)).take (colon - (q + 1))),
        Text.trim (index.drop (colon + 1) ++ [']'])) := by
  obtain ⟨hq, hcolon⟩ := lt_of_operators? hoperators
  have hlength : base.length + 1 = (base ++ ['[']).length := by
    rw [List.length_append, List.length_singleton]
  have htext : base ++ '[' :: (index ++ [']']) = (base ++ ['[']) ++ (index ++ [']']) :=
    List.append_cons base '[' _
  have hne : Text.trim (base ++ ['['] ++ index.take q) ≠ [] := by
    rw [ne_eq, Text.trim_eq_nil_iff]
    intro hblank
    exact absurd (hblank '[' (by simp)) (by decide)
  have hbetween : base.length + 1 + colon - (base.length + 1 + (q + 1)) = colon - (q + 1) := by
    omega
  have htake : (index ++ [']']).take q = index.take q :=
    List.take_append_of_le_length (Nat.le_of_lt hq)
  have hdrop {i : Nat} (hi : i < index.length) :
      (index ++ [']']).drop (i + 1) = index.drop (i + 1) ++ [']'] :=
    List.drop_append_of_le_length hi
  have hmiddle : (index.drop (q + 1) ++ [']']).take (colon - (q + 1)) =
      (index.drop (q + 1)).take (colon - (q + 1)) := by
    refine List.take_append_of_le_length ?_
    rw [List.length_drop]
    omega
  rw [ternary?_eq, operators?_indexed hinert, hoperators]
  simp only [Option.map_some, Option.bind_some, Prod.map_apply, Nat.add_assoc _ _ 1, hbetween]
  rw [hlength, htext, List.take_length_add_append, List.drop_length_add_append,
    List.drop_length_add_append, htake, hdrop hq, hdrop hcolon, hmiddle,
    if_neg (mt List.isEmpty_iff.mp hne), List.append_assoc, List.singleton_append]

/-- An indexing is the path in front of the brackets and the value of the expression in them. -/
theorem value?_indexed (hbase : isPathText base) (hinert : ∀ c ∈ base, isInert c)
    (hclosed : Nested '[' ']' index) (hoperators : operators? index = none) :
    value? scope (base ++ '[' :: (index ++ [']'])) =
      ((eval scope index).bind fun i => (readPathText scope (value? scope) base).bind fun value =>
        .done (itemAt value (position? i))).bind fun
          | some value => .done (some value)
          | none => plainForm scope (value? scope) (base ++ '[' :: (index ++ [']'])) := by
  obtain ⟨start, rest, rfl, hstart⟩ : ∃ start rest, base = start :: rest ∧
      Token.isNameStart start := by
    cases base with
    | nil => cases hbase
    | cons start rest => exact ⟨start, rest, rfl, (Bool.and_eq_true_iff.mp hbase).1⟩
  have hfirst := Token.isNameChar_of_isNameStart hstart
  have htext : (start :: rest) ++ '[' :: (index ++ [']']) =
      ((start :: rest) ++ '[' :: index) ++ [']'] := by simp
  have htrimmed : Text.Trimmed ((start :: rest) ++ '[' :: (index ++ [']'])) := by
    refine ⟨Text.endsRun_cons.mpr (isBlank_eq_false_of_isNameChar hfirst), ?_⟩
    rw [htext, List.reverse_append]
    exact Text.endsRun_cons.mpr (by decide)
  have hparens : withoutParens? ((start :: rest) ++ '[' :: (index ++ [']'])) = none := by
    have hne : start ≠ '(' := Text.ne_of_class hfirst (by decide)
    unfold withoutParens?
    split
    · next heq => exact absurd (List.cons.inj heq).1 hne
    · rfl
  have hquoted : unquoted? ((start :: rest) ++ '[' :: (index ++ [']'])) = none := by
    have hquote : isQuote start = false := by
      have := hinert start List.mem_cons_self
      simp only [isInert, Bool.and_eq_true, Bool.not_eq_true'] at this
      exact this.1.1.1.1
    rw [List.cons_append, unquoted?, hquote, Bool.false_and, Bool.false_and,
      if_neg Bool.false_ne_true]
  have hternary : ternary? ((start :: rest) ++ '[' :: (index ++ [']'])) = none := by
    rw [ternary?_eq, operators?_indexed hinert, hoperators]
    rfl
  have hcontains : contains? ((start :: rest) ++ '[' :: (index ++ [']'])) = none := by
    have hend : Text.withoutEnd? [')'] ((start :: rest) ++ '[' :: (index ++ [']'])) = none := by
      refine Text.withoutEnd?_eq_none fun hsuffix => ?_
      obtain ⟨front, hfront⟩ := hsuffix
      rw [htext] at hfront
      have hlast := congrArg List.getLast? hfront
      rw [List.getLast?_concat, List.getLast?_concat] at hlast
      exact absurd (Option.some.inj hlast) (by decide)
    rw [contains?, hend]
    rfl
  have hhelper : helper? ((start :: rest) ++ '[' :: (index ++ [']'])) = none := by
    rw [htext]
    exact helper?_bracket _
  have hform : arrayForm scope (value? scope) ((start :: rest) ++ '[' :: (index ++ [']'])) =
      (eval scope index).bind fun i =>
        (readPathText scope (value? scope) (start :: rest)).bind fun value =>
          .done (itemAt value (position? i)) := by
    rw [arrayForm, hcontains, hhelper, indexed?_nested _ hclosed]
    simp only [hbase, if_true]
    rfl
  rw [value?_eq_step, step]
  simp only [Text.trim_eq_self htrimmed, hparens, hternary, hquoted, hform]
  rfl

end Indexing

/-- The item of an array that a value chooses: the one at the integer that the value amounts to,
and null if it amounts to none or there is no item at it. -/
def chosen (items : List Value) (value : Value) : Value :=
  match value.int? with
  | some n => if 0 ≤ n.toInt then (items[n.toInt.toNat]?).getD .null else .null
  | none => .null

theorem itemAt_position? (items : List Value) (value : Value) :
    itemAt (some (.array items)) (position? value) = some (chosen items value) := by
  rw [itemAt, position?, chosen]
  cases value.int? with
  | none => rfl
  | some n =>
    simp only
    split <;> rfl

/-- An expression in brackets behind the path of an array chooses an item of it. But if it is a
ternary, the whole text is one, split in the brackets. -/
theorem eval_indexed (scope : Scope) (store : Store) {base index : List Char}
    {items : List Value} (hbase : isPathText base)
    (hitems : (scope.read base).value store.get? = some (.array items))
    (hclosed : Nested '[' ']' index) :
    (operators? index = none →
      (eval scope (base ++ '[' :: (index ++ [']']))).value store.get? =
        chosen items ((eval scope index).value store.get?)) ∧
    ∀ q colon, operators? index = some (q, colon) →
      ternary? (base ++ '[' :: (index ++ [']'])) =
        some (Text.trim (base ++ '[' :: index.take q),
          Text.trim ((index.drop (q + 1)).take (colon - (q + 1))),
          Text.trim (index.drop (colon + 1) ++ [']'])) := by
  obtain ⟨path, hpath⟩ : ∃ path, Path.ofChars? base = some path := by
    rw [← Option.ne_none_iff_exists']
    intro hnone
    rw [Scope.read, hnone] at hitems
    cases hitems
  have hinert := isInert_of_isPathText hbase hpath
  refine ⟨fun hoperators => ?_, fun q colon hoperators => ternary?_indexed hinert hoperators⟩
  have harray : (readPathText scope (value? scope) base).value store.get? =
      some (.array items) := by
    rw [readPathText_of_ofChars? _ (trimmed_of_isPathText hbase) hpath, ← hitems, Scope.read, hpath]
  rw [eval, evalWith, value?_indexed scope hbase hinert hclosed hoperators]
  simp only [Reading.value_bind, harray, Reading.value, itemAt_position?]
  rfl

/-- A store with two rows, and a switch that is on. -/
def switchedRows : Store :=
  .ofValues [("on", .bool true), ("rows", .array [.string "a", .string "b"])]

/-- A ternary in parentheses chooses the first row. -/
theorem eval_indexed_parentheses :
    ((eval .empty "rows[(on ? 0 : 1)]".toList).value switchedRows.get?).text = "a" := by
  have hne : "(on ? 0 : 1)".toList.all fun c => c ≠ '[' ∧ c ≠ ']' := by decide
  have hclosed : Nested '[' ']' "(on ? 0 : 1)".toList :=
    .of_forall_ne fun c hc => of_decide_eq_true (List.all_eq_true.mp hne c hc)
  have hbase : isPathText "rows".toList := by decide
  have hchosen := (eval_indexed .empty switchedRows hbase rfl hclosed).1 (by decide)
  exact (congrArg Value.text hchosen).trans (by decide +kernel)

/-- A ternary in the brackets does not choose a row, although nothing in it has to be closed. -/
theorem not_eval_indexed_ternary :
    ¬ ∀ (scope : Scope) (store : Store) (base index : List Char) (items : List Value),
      isPathText base → (scope.read base).value store.get? = some (.array items) →
      (∀ c ∈ index, c ∉ ['[', ']', '(', ')', '\x7b', '\x7d', '"', '\x27', '$']) →
        (eval scope (base ++ '[' :: (index ++ [']']))).value store.get? =
          chosen items ((eval scope index).value store.get?) := by
  intro h
  have hplain : "on ? 0 : 1".toList.all fun c =>
      c ∉ ['[', ']', '(', ')', '\x7b', '\x7d', '"', '\x27', '$'] := by decide
  have hchosen := h .empty switchedRows "rows".toList "on ? 0 : 1".toList
    [.string "a", .string "b"] (by decide) rfl
    fun c hc => of_decide_eq_true (List.all_eq_true.mp hplain c hc)
  have htext := congrArg Value.text hchosen
  revert htext
  decide +kernel

end Expr

end ScreenDoc
