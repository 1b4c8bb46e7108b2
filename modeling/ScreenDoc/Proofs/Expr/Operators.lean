import ScreenDoc.Proofs.Expr.Quiet

/-!
# The operators of a ternary

A text is split at its first question mark outside of quotes, placeholders and parentheses, and at
the colon that belongs to it. Where these two stand is found by one walk over the text. So they only
move when something without an operator is written in front of the text, and they stay where they
are when such a thing, a square bracket for one, is written behind it.

## Main definitions

- `Expr.operators?` — the positions of the question mark and of the colon
- `Expr.isInert`, `Expr.isMute` — the characters that mean nothing to the walk, in front of a text
  and behind it

## Main results

- `Expr.ternary?_eq` — a ternary is a text with operators and a condition
- `Expr.length_lt_of_ternary?` — the parts of a ternary are shorter
- `Expr.operators?_append`, `Expr.operators?_append_of_mute` — more text in front, and behind
-/

namespace ScreenDoc

theorem Text.trim_eq_nil_iff {text : List Char} :
    Text.trim text = [] ↔ ∀ c ∈ text, Text.isBlank c := by
  constructor
  · intro h
    obtain ⟨before, after, hbefore, hafter, -, htext⟩ := Text.exists_blanks text
    rw [htext, h, List.append_nil]
    exact List.forall_mem_append.mpr ⟨hbefore, hafter⟩
  · intro h
    rw [Text.trim, Text.trimStart, List.dropWhile_eq_nil_iff.mpr h]
    rfl

namespace Expr

/-- The positions of the first question mark and of its colon. -/
def operatorsOf? (chars : List (Nat × Char)) : Option (Nat × Nat) :=
  match chars.dropWhile (·.2 ≠ '?') with
  | [] => none
  | (q, _) :: rest => (colon? 0 rest).map fun colon => (q, colon)

/-- The positions of the question mark and of the colon at which a text is split. -/
def operators? (text : List Char) : Option (Nat × Nat) :=
  operatorsOf? (outsideParens 0 (topLevel text))

/-- A ternary is a text with operators that has a condition in front of them. -/
theorem ternary?_eq (text : List Char) :
    ternary? text = (operators? text).bind fun (q, colon) =>
      if (Text.trim (text.take q)).isEmpty then none
      else
        some (Text.trim (text.take q), Text.trim ((text.drop (q + 1)).take (colon - (q + 1))),
          Text.trim (text.drop (colon + 1))) := by
  rw [ternary?, operators?, operatorsOf?]
  cases (outsideParens 0 (topLevel text)).dropWhile (·.2 ≠ '?') with
  | nil => rfl
  | cons first rest => cases h : colon? 0 rest <;> simp [h]

/-! ### Positions -/

theorem position_of_mem_topLevelFrom {quote : Option Char} {braces i : Nat} {text : List Char}
    {p : Nat × Char} (h : p ∈ topLevelFrom quote braces i text) :
    i ≤ p.1 ∧ p.1 < i + text.length := by
  fun_induction topLevelFrom quote braces i text with
  | case1 => exact absurd h List.not_mem_nil
  | case3 braces i rest ih =>
    have := ih h
    simp only [List.length_cons]
    omega
  | case5 i c rest _ _ ih =>
    rw [List.length_cons]
    rcases List.mem_cons.mp h with rfl | h
    · simp only
      omega
    · have := ih h
      omega
  | _ =>
    rename_i ih
    have := ih h
    rw [List.length_cons]
    omega

theorem mem_of_colon? {depth colon : Nat} {chars : List (Nat × Char)}
    (h : colon? depth chars = some colon) : (colon, ':') ∈ chars := by
  fun_induction colon? depth chars with
  | case1 => cases h
  | case3 i rest _ =>
    cases h
    exact List.mem_cons_self
  | _ =>
    rename_i ih
    exact List.mem_cons_of_mem _ (ih h)

theorem mem_of_operatorsOf? {chars : List (Nat × Char)} {q colon : Nat}
    (h : operatorsOf? chars = some (q, colon)) :
    (∃ c, (q, c) ∈ chars) ∧ (colon, ':') ∈ chars := by
  rw [operatorsOf?] at h
  split at h
  · cases h
  · next position c rest hdrop =>
    have hsub := (List.dropWhile_sublist (fun p : Nat × Char => decide (p.2 ≠ '?'))
      (l := chars)).subset
    rw [hdrop] at hsub
    obtain ⟨other, hcolon, heq⟩ := Option.map_eq_some_iff.mp h
    cases heq
    exact ⟨⟨c, hsub List.mem_cons_self⟩, hsub (List.mem_cons_of_mem _ (mem_of_colon? hcolon))⟩

/-- The operators stand in the text. -/
theorem lt_of_operators? {text : List Char} {q colon : Nat}
    (h : operators? text = some (q, colon)) : q < text.length ∧ colon < text.length := by
  have hlt {i : Nat} {c : Char} (hmem : (i, c) ∈ outsideParens 0 (topLevel text)) :
      i < text.length := by
    have := (position_of_mem_topLevelFrom (mem_of_mem_outsideParens hmem)).2
    simpa using this
  obtain ⟨⟨c, hc⟩, hcolon⟩ := mem_of_operatorsOf? h
  exact ⟨hlt hc, hlt hcolon⟩

/-- The parts of a ternary are shorter than the whole. -/
theorem length_lt_of_ternary? {text condition whenTrue whenFalse : List Char}
    (h : ternary? text = some (condition, whenTrue, whenFalse)) :
    condition.length < text.length ∧ whenTrue.length < text.length ∧
      whenFalse.length < text.length := by
  rw [ternary?_eq, Option.bind_eq_some_iff] at h
  obtain ⟨⟨q, colon⟩, hoperators, hparts⟩ := h
  obtain ⟨-, hparts⟩ := Option.ite_none_left_eq_some.mp hparts
  cases hparts
  obtain ⟨hq, -⟩ := lt_of_operators? hoperators
  have hcondition := Text.trim_length_le (text.take q)
  have htrue := Text.trim_length_le ((text.drop (q + 1)).take (colon - (q + 1)))
  have hfalse := Text.trim_length_le (text.drop (colon + 1))
  simp only [List.length_take, List.length_drop] at hcondition htrue hfalse
  omega

/-! ### More text in front -/

/-- A character that neither quotes nor opens a placeholder or a parenthesis, and is no question
mark. -/
def isInert (c : Char) : Bool :=
  !isQuote c && c ≠ '$' && c ≠ '(' && c ≠ ')' && c ≠ '?'

/-- A class of characters without the others is inert. -/
theorem isInert_of_class {p : Char → Bool}
    (hp : ['"', '\x27', '$', '(', ')', '?'].all fun d => !p d) {c : Char} (hc : p c) :
    isInert c := by
  have hne {d : Char} (hd : d ∈ ['"', '\x27', '$', '(', ')', '?']) : c ≠ d :=
    Text.ne_of_class hc (Bool.not_eq_true' _ ▸ List.all_eq_true.mp hp d hd)
  simp [isInert, isQuote, hne (d := '"') (by decide), hne (d := '\x27') (by decide),
    hne (d := '$') (by decide), hne (d := '(') (by decide), hne (d := ')') (by decide),
    hne (d := '?') (by decide)]

theorem topLevelFrom_add (n : Nat) (quote : Option Char) (braces i : Nat) (text : List Char) :
    topLevelFrom quote braces (n + i) text =
      (topLevelFrom quote braces i text).map (Prod.map (n + ·) id) := by
  fun_induction topLevelFrom quote braces i text with
  | case1 => cases ‹Option Char› <;> rfl
  | case2 braces i q c rest ih => rw [topLevelFrom, ← ih, Nat.add_assoc]
  | case3 braces i rest ih => rw [topLevelFrom, ← ih, Nat.add_assoc]
  | case4 braces i c rest hopener hquote ih =>
    rw [topLevelFrom.eq_4 _ _ _ _ hopener, if_pos hquote, ← ih, Nat.add_assoc]
  | case5 i c rest hopener hquote ih =>
    rw [topLevelFrom.eq_4 _ _ _ _ hopener, if_neg hquote, if_pos rfl, List.map_cons, ← ih,
      Nat.add_assoc]
    rfl
  | case6 braces i rest hbraces hopener hquote ih =>
    rw [topLevelFrom.eq_4 _ _ _ _ hopener, if_neg hquote, if_neg hbraces, if_pos rfl, ← ih,
      Nat.add_assoc]
  | case7 braces i rest hbraces hopener hquote hopen ih =>
    rw [topLevelFrom.eq_4 _ _ _ _ hopener, if_neg hquote, if_neg hbraces, if_neg hopen, if_pos rfl,
      ← ih, Nat.add_assoc]
  | case8 braces i c rest hopener hquote hbraces hopen hclose ih =>
    rw [topLevelFrom.eq_4 _ _ _ _ hopener, if_neg hquote, if_neg hbraces, if_neg hopen,
      if_neg hclose, ← ih, Nat.add_assoc]

theorem outsideParens_map (f : Nat → Nat) (parens : Nat) (chars : List (Nat × Char)) :
    outsideParens parens (chars.map (Prod.map f id)) =
      (outsideParens parens chars).map (Prod.map f id) := by
  fun_induction outsideParens parens chars <;> simp_all [outsideParens]

theorem colon?_map (f : Nat → Nat) (depth : Nat) (chars : List (Nat × Char)) :
    colon? depth (chars.map (Prod.map f id)) = (colon? depth chars).map f := by
  fun_induction colon? depth chars <;> simp_all [colon?]

theorem operatorsOf?_map (f : Nat → Nat) (chars : List (Nat × Char)) :
    operatorsOf? (chars.map (Prod.map f id)) = (operatorsOf? chars).map (Prod.map f f) := by
  have hquestion : ((fun p : Nat × Char => decide (p.2 ≠ '?')) ∘ Prod.map f id) =
      fun p => decide (p.2 ≠ '?') := rfl
  rw [operatorsOf?, operatorsOf?, List.dropWhile_map, hquestion]
  cases chars.dropWhile (·.2 ≠ '?') with
  | nil => rfl
  | cons first rest =>
    obtain ⟨q, c⟩ := first
    simp only [List.map_cons, Prod.map_apply, colon?_map, Option.map_map]
    rfl

/-- The walk goes over an inert character. -/
theorem operatorsOf?_cons {c : Char} (hc : isInert c) (i : Nat) (rest : List Char) :
    operatorsOf? (outsideParens 0 (topLevelFrom none 0 i (c :: rest))) =
      operatorsOf? (outsideParens 0 (topLevelFrom none 0 (i + 1) rest)) := by
  simp only [isInert, Bool.and_eq_true, Bool.not_eq_true', decide_eq_true_eq] at hc
  obtain ⟨⟨⟨⟨hquote, hdollar⟩, hopen⟩, hclose⟩, hquestion⟩ := hc
  have htop : topLevelFrom none 0 i (c :: rest) = (i, c) :: topLevelFrom none 0 (i + 1) rest := by
    rw [topLevelFrom.eq_4 _ _ _ _ fun _ heq => absurd heq hdollar, hquote,
      if_neg Bool.false_ne_true, if_pos rfl]
  have hskip : ((i, c) :: outsideParens 0 (topLevelFrom none 0 (i + 1) rest)).dropWhile
      (·.2 ≠ '?') = (outsideParens 0 (topLevelFrom none 0 (i + 1) rest)).dropWhile (·.2 ≠ '?') :=
    List.dropWhile_cons_of_pos (decide_eq_true hquestion)
  rw [htop, outsideParens, if_neg hopen, if_neg hclose, if_pos rfl, operatorsOf?, hskip,
    operatorsOf?]

/-- Inert text in front moves the operators. -/
theorem operators?_append {run : List Char} (hrun : ∀ c ∈ run, isInert c) (rest : List Char) :
    operators? (run ++ rest) =
      (operators? rest).map (Prod.map (run.length + ·) (run.length + ·)) := by
  have hwalk (i : Nat) :
      operatorsOf? (outsideParens 0 (topLevelFrom none 0 i (run ++ rest))) =
        operatorsOf? (outsideParens 0 (topLevelFrom none 0 (run.length + i) rest)) := by
    induction run generalizing i with
    | nil => rw [List.nil_append, List.length_nil, Nat.zero_add]
    | cons c run ih =>
      obtain ⟨hc, hrun⟩ := List.forall_mem_cons.mp hrun
      rw [List.cons_append, operatorsOf?_cons hc, ih hrun, List.length_cons]
      congr 3
      omega
  rw [operators?, topLevel, hwalk, topLevelFrom_add, outsideParens_map, operatorsOf?_map]
  rfl

/-- Inert text in front of a ternary belongs to the condition. -/
theorem ternary?_append {run rest condition whenTrue whenFalse : List Char}
    (hrun : ∀ c ∈ run, isInert c) (h : ternary? rest = some (condition, whenTrue, whenFalse)) :
    ∃ before, condition = Text.trim before ∧
      ternary? (run ++ rest) = some (Text.trim (run ++ before), whenTrue, whenFalse) := by
  rw [ternary?_eq, Option.bind_eq_some_iff] at h
  obtain ⟨⟨q, colon⟩, hoperators, hparts⟩ := h
  obtain ⟨hne, hparts⟩ := Option.ite_none_left_eq_some.mp hparts
  cases hparts
  refine ⟨rest.take q, rfl, ?_⟩
  have hcondition : Text.trim (run ++ rest.take q) ≠ [] := by
    intro hempty
    rw [Text.trim_eq_nil_iff] at hempty
    refine hne (List.isEmpty_iff.mpr (Text.trim_eq_nil_iff.mpr fun c hc => ?_))
    exact hempty c (List.mem_append_right _ hc)
  have hbetween : run.length + colon - (run.length + (q + 1)) = colon - (q + 1) := by omega
  rw [ternary?_eq, operators?_append hrun, hoperators]
  simp only [Option.map_some, Prod.map_apply, Option.bind_some, List.take_length_add_append,
    List.isEmpty_iff, if_neg hcondition, hbetween, Nat.add_assoc, List.drop_length_add_append]

/-! ### More text behind -/

/-- A character that, behind a text, is no operator of it and completes no opener. -/
def isMute (c : Char) : Bool :=
  c ≠ '\x7b' && c ≠ '?' && c ≠ ':'

/-- The walk sees at most what is written behind a text. -/
theorem topLevelFrom_append {behind : List Char} (hbehind : ∀ c ∈ behind, isMute c)
    (quote : Option Char) (braces i : Nat) (text : List Char) :
    ∃ tail, (∀ p ∈ tail, isMute p.2) ∧
      topLevelFrom quote braces i (text ++ behind) = topLevelFrom quote braces i text ++ tail := by
  -- An opener that the text does not have is not completed by what is behind.
  have happend {c : Char} {rest : List Char} (h : ∀ more, c = '$' → rest = '\x7b' :: more → False) :
      ∀ more, c = '$' → rest ++ behind = '\x7b' :: more → False := by
    intro more hc heq
    cases rest with
    | nil =>
      rw [List.nil_append] at heq
      exact absurd (hbehind '\x7b' (heq ▸ List.mem_cons_self)) (by decide)
    | cons first others => exact h others hc (by rw [(List.cons.inj heq).1])
  fun_induction topLevelFrom quote braces i text with
  | case1 quote braces i =>
    exact ⟨topLevelFrom quote braces i behind,
      fun p hp => hbehind p.2 (mem_of_mem_topLevelFrom hp), rfl⟩
  | case2 braces i q c rest ih =>
    rw [List.cons_append, topLevelFrom]
    exact ih
  | case3 braces i rest ih =>
    rw [List.cons_append, List.cons_append, topLevelFrom]
    exact ih
  | case4 braces i c rest hopener hquote ih =>
    rw [List.cons_append, topLevelFrom.eq_4 _ _ _ _ (happend hopener), if_pos hquote]
    exact ih
  | case5 i c rest hopener hquote ih =>
    obtain ⟨tail, htail, heq⟩ := ih
    refine ⟨tail, htail, ?_⟩
    rw [List.cons_append, topLevelFrom.eq_4 _ _ _ _ (happend hopener), if_neg hquote, if_pos rfl,
      heq, List.cons_append]
  | case6 braces i rest hbraces hopener hquote ih =>
    rw [List.cons_append, topLevelFrom.eq_4 _ _ _ _ (happend hopener), if_neg hquote,
      if_neg hbraces, if_pos rfl]
    exact ih
  | case7 braces i rest hbraces hopener hquote hopen ih =>
    rw [List.cons_append, topLevelFrom.eq_4 _ _ _ _ (happend hopener), if_neg hquote,
      if_neg hbraces, if_neg hopen, if_pos rfl]
    exact ih
  | case8 braces i c rest hopener hquote hbraces hopen hclose ih =>
    rw [List.cons_append, topLevelFrom.eq_4 _ _ _ _ (happend hopener), if_neg hquote,
      if_neg hbraces, if_neg hopen, if_neg hclose]
    exact ih

theorem outsideParens_append {tail : List (Nat × Char)} (htail : ∀ p ∈ tail, isMute p.2)
    (parens : Nat) (chars : List (Nat × Char)) :
    ∃ seen, (∀ p ∈ seen, isMute p.2) ∧
      outsideParens parens (chars ++ tail) = outsideParens parens chars ++ seen := by
  fun_induction outsideParens parens chars with
  | case1 parens =>
    exact ⟨outsideParens parens tail, fun p hp => htail p (mem_of_mem_outsideParens hp), rfl⟩
  | case2 parens i rest ih =>
    rw [List.cons_append, outsideParens, if_pos rfl]
    exact ih
  | case3 parens i rest hopen ih =>
    rw [List.cons_append, outsideParens, if_neg hopen, if_pos rfl]
    exact ih
  | case4 i c rest hopen hclose ih =>
    obtain ⟨seen, hseen, heq⟩ := ih
    refine ⟨seen, hseen, ?_⟩
    rw [List.cons_append, outsideParens, if_neg hopen, if_neg hclose, if_pos rfl, heq,
      List.cons_append]
  | case5 parens i c rest hopen hclose hparens ih =>
    rw [List.cons_append, outsideParens, if_neg hopen, if_neg hclose, if_neg hparens]
    exact ih

theorem colon?_append {chars tail : List (Nat × Char)} (htail : ∀ p ∈ tail, isMute p.2)
    (depth : Nat) : colon? depth (chars ++ tail) = colon? depth chars := by
  fun_induction colon? depth chars with
  | case1 depth =>
    induction tail with
    | nil => rfl
    | cons p tail ih =>
      obtain ⟨hp, hrest⟩ := List.forall_mem_cons.mp htail
      obtain ⟨i, c⟩ := p
      simp only [isMute, Bool.and_eq_true, decide_eq_true_eq] at hp
      rw [List.nil_append, colon?, if_neg hp.1.2, if_neg hp.2]
      exact ih hrest
  | _ => simp_all [colon?]

theorem operatorsOf?_append {chars tail : List (Nat × Char)} (htail : ∀ p ∈ tail, isMute p.2) :
    operatorsOf? (chars ++ tail) = operatorsOf? chars := by
  have hskip : tail.dropWhile (·.2 ≠ '?') = [] := by
    refine List.dropWhile_eq_nil_iff.mpr fun p hp => decide_eq_true ?_
    exact Text.ne_of_class (htail p hp) (by decide)
  rw [operatorsOf?, operatorsOf?, List.dropWhile_append, hskip]
  cases chars.dropWhile (·.2 ≠ '?') with
  | nil => rfl
  | cons first rest => simp [colon?_append htail]

/-- Mute text behind a text has no operator of it, nor does it end anything. -/
theorem operators?_append_of_mute {behind : List Char} (hbehind : ∀ c ∈ behind, isMute c)
    (text : List Char) : operators? (text ++ behind) = operators? text := by
  obtain ⟨tail, htail, htop⟩ := topLevelFrom_append hbehind none 0 0 text
  obtain ⟨seen, hseen, houtside⟩ := outsideParens_append htail 0 (topLevel text)
  rw [operators?, topLevel, htop, ← topLevel, houtside, operatorsOf?_append hseen, operators?]

theorem operators?_concat (text : List Char) : operators? (text ++ [']']) = operators? text :=
  operators?_append_of_mute (List.forall_mem_singleton.mpr rfl) text

end Expr

end ScreenDoc
