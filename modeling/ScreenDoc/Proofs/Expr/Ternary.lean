import ScreenDoc.Proofs.Expr.Enclosed

/-!
# Ternaries

A ternary is split at its own operators: the question mark and the colon outside of quotations,
placeholders and parentheses that belong together. What a closed text shows of itself there is one
text, and the search for the operators depends on nothing else. It passes over a condition that
shows no question mark and over a branch in which each colon answers a question mark. So a ternary
in the first branch stays whole, and one in the second branch is split after it.

## Main definitions

- `Expr.Exposes` — a closed text and what it shows outside of quotations, placeholders and
  parentheses
- `Expr.IsCondition`, `Expr.IsBranch` — the texts in front of and between the operators
- `Expr.conditional` — a condition, a question mark, a branch, a colon and a text

## Main results

- `Expr.exists_marks` — the scan of a closed text finds what the text shows
- `Expr.ternary?_trim` — blanks around a text do not matter
- `Expr.ternary?_conditional` — where a ternary is split, and ternaries in its branches
-/

namespace ScreenDoc

/-! ### Blanks around a text -/

namespace Text

theorem trim_blanks_append {before : List Char} (h : ∀ c ∈ before, isBlank c) (text : List Char) :
    trim (before ++ text) = trim text := by
  induction before with
  | nil => rfl
  | cons c before ih =>
    obtain ⟨hc, hbefore⟩ := List.forall_mem_cons.mp h
    rw [List.cons_append, trim_cons_of_blank hc, ih hbefore]

theorem trim_append_blanks {after : List Char} (h : ∀ c ∈ after, isBlank c) (text : List Char) :
    trim (text ++ after) = trim text := by
  have hend : trimEnd (text ++ after) = trimEnd text := by
    rw [trimEnd, List.reverse_append,
      List.dropWhile_append_of_pos fun c hc => h c (List.mem_reverse.mp hc), trimEnd]
  rw [← trim_trimEnd, hend, trim_trimEnd]

end Text

namespace Expr

open Template (placeholder)

/-! ### Scans of closed texts -/

theorem topLevelFrom_placeholder_cons {c : Char} (hquote : isQuote c = false) (hopen : c ≠ '\x7b')
    (hclose : c ≠ '\x7d') (braces i : Nat) (rest : List Char) :
    topLevelFrom none (braces + 1) i (c :: rest) = topLevelFrom none (braces + 1) (i + 1) rest := by
  have hbrace : isQuote '\x7b' = false := by decide
  by_cases hopener : ∃ more, c = '$' ∧ rest = '\x7b' :: more
  · -- A dollar sign in front of a brace is scanned with it, with the same effect.
    obtain ⟨more, rfl, rfl⟩ := hopener
    rw [topLevelFrom, topLevelFrom.eq_4 _ _ _ _ fun _ heq => absurd heq (by decide), hbrace,
      if_neg Bool.false_ne_true, if_neg (Nat.succ_ne_zero braces), if_pos rfl]
  · rw [topLevelFrom.eq_4 _ _ _ _ fun more hc hrest => hopener ⟨more, hc, hrest⟩, hquote,
      if_neg Bool.false_ne_true, if_neg (Nat.succ_ne_zero braces), if_neg hopen, if_neg hclose]

/-- Nothing in the body of a placeholder is at top level. -/
theorem topLevelFrom_body {body : List Char} (h : Closed '\x7b' '\x7d' body) (braces i : Nat)
    (rest : List Char) :
    topLevelFrom none (braces + 1) i (body ++ rest) =
      topLevelFrom none (braces + 1) (i + body.length) rest := by
  have hbraces : isQuote '\x7b' = false ∧ isQuote '\x7d' = false := by decide
  induction h generalizing braces i rest with
  | nil => rfl
  | char hquote hopen hclose _ ih =>
    rw [List.cons_append, topLevelFrom_placeholder_cons hquote hopen hclose, ih, List.length_cons]
    congr 1
    omega
  | @quoted q inside others hquote hinside _ ih =>
    have hnot : ∀ more, q = '$' → inside ++ q :: (others ++ rest) = '\x7b' :: more → False :=
      fun _ hq => absurd hq (Text.ne_of_class hquote (by decide))
    rw [List.cons_append, List.append_assoc, List.cons_append, topLevelFrom.eq_4 _ _ _ _ hnot,
      if_pos hquote, topLevelFrom_quoted hinside, ih]
    congr 1
    simp only [List.length_cons, List.length_append]
    omega
  | @group inside others _ _ ihinside ihothers =>
    rw [List.cons_append, List.append_assoc, List.cons_append,
      topLevelFrom.eq_4 _ _ _ _ fun _ heq => absurd heq (by decide), hbraces.1,
      if_neg Bool.false_ne_true, if_neg (Nat.succ_ne_zero braces), if_pos rfl, ihinside,
      topLevelFrom.eq_4 _ _ _ _ fun _ heq => absurd heq (by decide), hbraces.2,
      if_neg Bool.false_ne_true, if_neg (Nat.succ_ne_zero (braces + 1)), if_neg (by decide),
      if_pos rfl, Nat.add_sub_cancel, ihothers]
    congr 1
    simp only [List.length_cons, List.length_append]
    omega

theorem topLevelFrom_placeholder {body : List Char} (h : Closed '\x7b' '\x7d' body) (i : Nat)
    (rest : List Char) :
    topLevelFrom none 0 i (placeholder body ++ rest) =
      topLevelFrom none 0 (i + (placeholder body).length) rest := by
  have hclose : isQuote '\x7d' = false := by decide
  have htext : placeholder body ++ rest = '$' :: '\x7b' :: (body ++ '\x7d' :: rest) := by
    simp [placeholder, opener]
  rw [htext, topLevelFrom, topLevelFrom_body h,
    topLevelFrom.eq_4 _ _ _ _ fun _ heq => absurd heq (by decide), hclose,
    if_neg Bool.false_ne_true, if_neg (by decide), if_neg (by decide), if_pos rfl]
  congr 1
  simp only [placeholder, opener, List.length_append, List.length_cons, List.length_nil]
  omega

/-- A text in which quotations, placeholders and parentheses are closed, and the characters of it
that are outside of all of them. -/
inductive Exposes : List Char → List Char → Prop where
  | nil : Exposes [] []
  | char {c : Char} {rest own : List Char} (hquote : isQuote c = false) (hopen : c ≠ '(')
      (hclose : c ≠ ')') (hopener : c = '$' → rest.head? ≠ some '\x7b') (hrest : Exposes rest own) :
      Exposes (c :: rest) (c :: own)
  | quoted {q : Char} {inside rest own : List Char} (hquote : isQuote q) (hinside : q ∉ inside)
      (hrest : Exposes rest own) : Exposes (q :: (inside ++ q :: rest)) own
  | placeholder {body rest own : List Char} (hbody : Closed '\x7b' '\x7d' body)
      (hrest : Exposes rest own) : Exposes (placeholder body ++ rest) own
  | group {inside rest shown own : List Char} (hinside : Exposes inside shown)
      (hrest : Exposes rest own) : Exposes ('(' :: (inside ++ ')' :: rest)) own

namespace Exposes

variable {a b own others : List Char}

/-- Texts one after the other show what each of them shows. They must not meet in an opener. -/
theorem append (ha : Exposes a own) (hb : Exposes b others) (hmeet : b.head? ≠ some '\x7b') :
    Exposes (a ++ b) (own ++ others) := by
  induction ha with
  | nil => exact hb
  | @char c rest own hquote hopen hclose hopener _ ih =>
    refine .char hquote hopen hclose (fun hc => ?_) ih
    cases rest with
    | nil => exact hmeet
    | cons first rest => exact hopener hc
  | quoted hquote hinside _ ih =>
    rw [List.cons_append, List.append_assoc, List.cons_append]
    exact .quoted hquote hinside ih
  | placeholder hbody _ ih =>
    rw [List.append_assoc]
    exact .placeholder hbody ih
  | group hinside _ _ ih =>
    rw [List.cons_append, List.append_assoc, List.cons_append]
    exact .group hinside ih

theorem inert_append {run : List Char} (hrun : ∀ c ∈ run, isInert c) (h : Exposes a own) :
    Exposes (run ++ a) (run ++ own) := by
  induction run with
  | nil => exact h
  | cons c run ih =>
    obtain ⟨hc, hrest⟩ := List.forall_mem_cons.mp hrun
    simp only [isInert, Bool.and_eq_true, Bool.not_eq_true', decide_eq_true_eq] at hc
    obtain ⟨⟨⟨⟨hquote, hdollar⟩, hopen⟩, hclose⟩, -⟩ := hc
    exact .char hquote hopen hclose (fun heq => absurd heq hdollar) (ih hrest)

theorem of_inert {run : List Char} (hrun : ∀ c ∈ run, isInert c) : Exposes run run := by
  simpa using Exposes.nil.inert_append hrun

theorem append_blanks {blanks : List Char} (hblanks : ∀ c ∈ blanks, Text.isBlank c)
    (h : Exposes a own) : Exposes (a ++ blanks) (own ++ blanks) := by
  refine h.append (of_inert fun c hc => isInert_of_class (by decide) (hblanks c hc)) fun hhead => ?_
  exact absurd (hblanks _ (List.mem_of_mem_head? hhead)) (by decide)

end Exposes

/-- The scan finds, in a closed text, just what the text shows; within parentheses it finds nothing.
What follows must not complete an opener. -/
theorem exists_marks {text own : List Char} (h : Exposes text own) (parens i : Nat)
    (rest : List Char) (hmeet : rest.head? ≠ some '\x7b') :
    ∃ marks : List (Nat × Char), marks.map Prod.snd = (if parens = 0 then own else []) ∧
      outsideParens parens (topLevelFrom none 0 i (text ++ rest)) =
        marks ++ outsideParens parens (topLevelFrom none 0 (i + text.length) rest) := by
  induction h generalizing parens i rest with
  | nil => exact ⟨[], by split <;> rfl, rfl⟩
  | @char c others own hquote hopen hclose hopener _ ih =>
    have hnot : ∀ more, c = '$' → others ++ rest = '\x7b' :: more → False := by
      intro more hc heq
      cases others with
      | nil => exact hmeet (by rw [← List.nil_append rest, heq]; rfl)
      | cons first others => exact hopener hc (by rw [(List.cons.inj heq).1]; rfl)
    obtain ⟨marks, hmarks, hscan⟩ := ih parens (i + 1) rest hmeet
    have hlength : i + 1 + others.length = i + (c :: others).length := by
      rw [List.length_cons]
      omega
    rw [List.cons_append, topLevelFrom.eq_4 _ _ _ _ hnot, hquote, if_neg Bool.false_ne_true,
      if_pos rfl, outsideParens, if_neg hopen, if_neg hclose, hscan, hlength]
    by_cases hparens : parens = 0
    · simp only [if_pos hparens] at hmarks ⊢
      exact ⟨(i, c) :: marks, by rw [List.map_cons, hmarks], rfl⟩
    · simp only [if_neg hparens] at hmarks ⊢
      exact ⟨marks, hmarks, rfl⟩
  | @quoted q inside others own hquote hinside _ ih =>
    have hnot : ∀ more, q = '$' → inside ++ q :: (others ++ rest) = '\x7b' :: more → False :=
      fun _ hq => absurd hq (Text.ne_of_class hquote (by decide))
    obtain ⟨marks, hmarks, hscan⟩ := ih parens (i + 1 + inside.length + 1) rest hmeet
    refine ⟨marks, hmarks, ?_⟩
    have hlength : i + 1 + inside.length + 1 + others.length =
        i + (q :: (inside ++ q :: others)).length := by
      simp only [List.length_cons, List.length_append]
      omega
    rw [List.cons_append, List.append_assoc, List.cons_append, topLevelFrom.eq_4 _ _ _ _ hnot,
      if_pos hquote, topLevelFrom_quoted hinside, hscan, hlength]
  | @placeholder body others own hbody _ ih =>
    obtain ⟨marks, hmarks, hscan⟩ := ih parens (i + (placeholder body).length) rest hmeet
    refine ⟨marks, hmarks, ?_⟩
    rw [List.append_assoc, topLevelFrom_placeholder hbody, hscan, List.length_append, Nat.add_assoc]
  | @group inside others shown own _ _ ihinside ihothers =>
    have hquote : isQuote '(' = false ∧ isQuote ')' = false := by decide
    obtain ⟨hidden, hhidden, hgroup⟩ :=
      ihinside (parens + 1) (i + 1) (')' :: (others ++ rest)) (by simp)
    rw [if_neg (Nat.succ_ne_zero parens), List.map_eq_nil_iff] at hhidden
    obtain ⟨marks, hmarks, hscan⟩ := ihothers parens (i + 1 + inside.length + 1) rest hmeet
    refine ⟨marks, hmarks, ?_⟩
    have hlength : i + 1 + inside.length + 1 + others.length =
        i + ('(' :: (inside ++ ')' :: others)).length := by
      simp only [List.length_cons, List.length_append]
      omega
    rw [List.cons_append, List.append_assoc, List.cons_append,
      topLevelFrom.eq_4 _ _ _ _ fun _ heq => absurd heq (by decide), hquote.1,
      if_neg Bool.false_ne_true, if_pos rfl, outsideParens, if_pos rfl, hgroup, hhidden,
      List.nil_append, topLevelFrom.eq_4 _ _ _ _ fun _ heq => absurd heq (by decide), hquote.2,
      if_neg Bool.false_ne_true, if_pos rfl, outsideParens, if_neg (by decide), if_pos rfl,
      Nat.add_sub_cancel, hscan, hlength]

/-! ### Conditions and branches -/

/-- A text that can stand in front of a question mark: closed, not blank, and without a question
mark of its own. -/
def IsCondition (text : List Char) : Prop :=
  (∃ own, Exposes text own ∧ '?' ∉ own) ∧ Text.trim text ≠ []

/-- A text that can stand between a question mark and a colon: closed, and its own question marks
and colons belong together. -/
def IsBranch (text : List Char) : Prop :=
  ∃ own, Exposes text own ∧ Nested '?' ':' own

/-- A condition, a branch for the case that it holds, and a text for the case that it does not. -/
def conditional (condition whenTrue whenFalse : List Char) : List Char :=
  condition ++ '?' :: (whenTrue ++ ':' :: whenFalse)

section Gaps

variable {text before after : List Char} (hbefore : ∀ c ∈ before, Text.isBlank c)
  (hafter : ∀ c ∈ after, Text.isBlank c)

include hafter in
theorem IsCondition.append_blanks (h : IsCondition text) : IsCondition (text ++ after) := by
  obtain ⟨⟨own, hown, hquestion⟩, hne⟩ := h
  refine ⟨⟨own ++ after, hown.append_blanks hafter, ?_⟩, by rwa [Text.trim_append_blanks hafter]⟩
  rw [List.mem_append, not_or]
  exact ⟨hquestion, fun hmem => absurd (hafter _ hmem) (by decide)⟩

include hbefore hafter in
theorem IsBranch.append_blanks (h : IsBranch text) : IsBranch (before ++ text ++ after) := by
  have hblanks {blanks : List Char} (hall : ∀ c ∈ blanks, Text.isBlank c) : Nested '?' ':' blanks :=
    .of_forall_ne fun c hc =>
      ⟨Text.ne_of_class (hall c hc) (by decide), Text.ne_of_class (hall c hc) (by decide)⟩
  obtain ⟨own, hown, hnested⟩ := h
  have hinert : ∀ c ∈ before, isInert c := fun c hc => isInert_of_class (by decide) (hbefore c hc)
  exact ⟨before ++ own ++ after, (hown.inert_append hinert).append_blanks hafter,
    ((hblanks hbefore).append hnested).append (hblanks hafter)⟩

end Gaps

/-- A ternary whose parts are branches is a branch itself. -/
theorem IsBranch.conditional {c a b : List Char} (hc : IsBranch c) (ha : IsBranch a)
    (hb : IsBranch b) : IsBranch (conditional c a b) := by
  have hchar {d : Char} {rest own : List Char} (hd : d = '?' ∨ d = ':') (h : Exposes rest own) :
      Exposes (d :: rest) (d :: own) := by
    rcases hd with rfl | rfl <;> exact .char (by decide) (by decide) (by decide) (by simp) h
  obtain ⟨condition, hcondition, hnestedc⟩ := hc
  obtain ⟨whenTrue, htrue, hnesteda⟩ := ha
  obtain ⟨whenFalse, hfalse, hnestedb⟩ := hb
  refine ⟨condition ++ '?' :: (whenTrue ++ ':' :: whenFalse), ?_,
    hnestedc.append (.group hnesteda hnestedb)⟩
  exact hcondition.append
    (hchar (.inl rfl) (htrue.append (hchar (.inr rfl) hfalse) (by simp))) (by simp)

/-! ### The split -/

/-- The search for a colon passes over marks that belong together. -/
theorem colon?_nested {own : List Char} (h : Nested '?' ':' own) {marks : List (Nat × Char)}
    (hmarks : marks.map Prod.snd = own) (depth : Nat) (rest : List (Nat × Char)) :
    colon? depth (marks ++ rest) = colon? depth rest := by
  induction h generalizing marks depth rest with
  | nil =>
    rw [List.map_eq_nil_iff] at hmarks
    rw [hmarks, List.nil_append]
  | char hquestion hcolon _ ih =>
    obtain ⟨⟨i, c⟩, others, rfl, rfl, hothers⟩ := List.map_eq_cons_iff.mp hmarks
    rw [List.cons_append, colon?, if_neg hquestion, if_neg hcolon, ih hothers]
  | group _ _ ihinside ihrest =>
    obtain ⟨⟨i, c⟩, others, rfl, hc, hothers⟩ := List.map_eq_cons_iff.mp hmarks
    obtain ⟨inside, behind, rfl, hinside, hbehind⟩ := List.map_eq_append_iff.mp hothers
    obtain ⟨⟨j, d⟩, last, rfl, hd, hlast⟩ := List.map_eq_cons_iff.mp hbehind
    rw [List.cons_append, colon?, if_pos hc, List.append_assoc, ihinside hinside, List.cons_append,
      colon?, if_neg (by rw [show d = ':' from hd]; decide), if_pos hd,
      if_neg (Nat.succ_ne_zero depth), Nat.add_sub_cancel, ihrest hlast]

/-- The operators of a ternary, whatever comes after its colon. -/
theorem operators?_conditional {c a : List Char} (hc : IsCondition c) (ha : IsBranch a)
    (b : List Char) :
    operators? (conditional c a b) = some (c.length, c.length + 1 + a.length) := by
  obtain ⟨⟨condition, hcondition, hquestion⟩, -⟩ := hc
  obtain ⟨branch, hbranch, hnested⟩ := ha
  obtain ⟨before, hbefore, hfront⟩ :=
    exists_marks hcondition 0 0 ('?' :: (a ++ ':' :: b)) (by simp)
  obtain ⟨between, hbetween, hmiddle⟩ :=
    exists_marks hbranch 0 (c.length + 1) (':' :: b) (by simp)
  rw [if_pos rfl] at hbefore hbetween
  -- A single operator is a mark of its own.
  have hmark {d : Char} (hd : d = '?' ∨ d = ':') (i : Nat) (rest : List Char) :
      outsideParens 0 (topLevelFrom none 0 i (d :: rest)) =
        (i, d) :: outsideParens 0 (topLevelFrom none 0 (i + 1) rest) := by
    rcases hd with rfl | rfl <;>
      rw [topLevelFrom.eq_4 _ _ _ _ fun _ heq => absurd heq (by decide), if_neg (by decide),
        if_pos rfl, outsideParens, if_neg (by decide), if_neg (by decide), if_pos rfl]
  have hskip : before.dropWhile (·.2 ≠ '?') = [] := by
    refine List.dropWhile_eq_nil_iff.mpr fun mark hmem => decide_eq_true fun heq => hquestion ?_
    rw [← hbefore, ← heq]
    exact List.mem_map_of_mem hmem
  rw [operators?, topLevel, conditional, hfront, Nat.zero_add, hmark (.inl rfl), hmiddle,
    hmark (.inr rfl), operatorsOf?, List.dropWhile_append, hskip, List.isEmpty_nil, if_pos rfl,
    List.dropWhile_cons_of_neg (by simp)]
  simp only [colon?_nested hnested hbetween, colon?]
  rfl

/-- Blanks around a text do not matter for where it is split. -/
theorem ternary?_trim (text : List Char) : ternary? (Text.trim text) = ternary? text := by
  obtain ⟨before, after, hbefore, hafter, -, htext⟩ := Text.exists_blanks text
  have hinert : ∀ c ∈ before, isInert c := fun c hc => isInert_of_class (by decide) (hbefore c hc)
  have hmute : ∀ c ∈ after, isMute c := by
    intro c hc
    have hne {d : Char} (hd : Text.isBlank d = false) : c ≠ d := Text.ne_of_class (hafter c hc) hd
    simp [isMute, hne (d := '\x7b') (by decide), hne (d := '?') (by decide),
      hne (d := ':') (by decide)]
  generalize Text.trim text = core at htext
  subst htext
  rw [ternary?_eq, ternary?_eq, operators?_append_of_mute hmute, operators?_append hinert]
  cases hoperators : operators? core with
  | none => rfl
  | some parts =>
    obtain ⟨q, colon⟩ := parts
    obtain ⟨hq, hcolon⟩ := lt_of_operators? hoperators
    have hcondition : ((before ++ core ++ after).take (before.length + q)) =
        before ++ core.take q := by
      rw [List.append_assoc, List.take_length_add_append, List.take_append_of_le_length hq.le]
    have hdrop (n : Nat) (hn : n ≤ core.length) :
        (before ++ core ++ after).drop (before.length + n) = core.drop n ++ after := by
      rw [List.append_assoc, List.drop_length_add_append, List.drop_append_of_le_length hn]
    have htrue : ((core.drop (q + 1) ++ after).take (before.length + colon -
        (before.length + q + 1))) = (core.drop (q + 1)).take (colon - (q + 1)) := by
      rw [List.take_append_of_le_length]
      · congr 1
        omega
      · rw [List.length_drop]
        omega
    simp only [Option.map_some, Option.bind_some, Prod.map_apply]
    rw [hcondition, Text.trim_blanks_append hbefore, Nat.add_assoc before.length q 1,
      Nat.add_assoc before.length colon 1, hdrop (q + 1) hq, hdrop (colon + 1) hcolon,
      Text.trim_append_blanks hafter]
    rw [Nat.add_assoc] at htrue
    rw [htrue]

/-- The parts of a ternary are what its operators stand between. -/
theorem ternary?_parts {c a : List Char} (hc : IsCondition c) (ha : IsBranch a) (b : List Char) :
    ternary? (conditional c a b) = some (Text.trim c, Text.trim a, Text.trim b) := by
  have hcondition : (conditional c a b).take c.length = c := List.take_left
  have hbehind : (conditional c a b).drop (c.length + 1) = a ++ ':' :: b := by
    rw [conditional, List.drop_length_add_append]
    rfl
  have hfalse : (conditional c a b).drop (c.length + 1 + a.length + 1) = b := by
    rw [Nat.add_assoc, ← List.drop_drop, hbehind, List.drop_length_add_append]
    rfl
  rw [ternary?_eq, operators?_conditional hc ha]
  simp only [Option.bind_some, hcondition, hbehind, hfalse, Nat.add_sub_cancel_left, List.take_left,
    List.isEmpty_iff, if_neg hc.2]

/-- A ternary is split at its own operators, whatever blanks stand around them and whatever text its
second branch is. A ternary in the first branch stays whole, and one in the second branch is left
for later: both can be split in turn. -/
theorem ternary?_conditional {c a : List Char} (hc : IsCondition c) (ha : IsBranch a) :
    (∀ (g₁ g₂ g₃ g₄ b : List Char), (∀ d ∈ g₁ ++ g₂ ++ g₃ ++ g₄, Text.isBlank d) →
      ternary? (conditional (c ++ g₁) (g₂ ++ a ++ g₃) (g₄ ++ b)) =
        some (Text.trim c, Text.trim a, Text.trim b)) ∧
    (∀ c' a' b' b : List Char, IsCondition c' → IsBranch c' → IsBranch a' → IsBranch b' →
      ternary? (conditional c (conditional c' a' b') b) =
          some (Text.trim c, Text.trim (conditional c' a' b'), Text.trim b) ∧
        ternary? (Text.trim (conditional c' a' b')) =
          some (Text.trim c', Text.trim a', Text.trim b')) ∧
    (∀ c' a' b' : List Char, IsCondition c' → IsBranch a' →
      ternary? (conditional c a (conditional c' a' b')) =
          some (Text.trim c, Text.trim a, Text.trim (conditional c' a' b')) ∧
        ternary? (Text.trim (conditional c' a' b')) =
          some (Text.trim c', Text.trim a', Text.trim b')) := by
  refine ⟨fun g₁ g₂ g₃ g₄ b hgaps => ?_, fun c' a' b' b hc' hbranch ha' hb' => ⟨?_, ?_⟩,
    fun c' a' b' hc' ha' => ⟨?_, ?_⟩⟩
  · simp only [List.forall_mem_append] at hgaps
    obtain ⟨⟨⟨h₁, h₂⟩, h₃⟩, h₄⟩ := hgaps
    rw [ternary?_parts (hc.append_blanks h₁) (ha.append_blanks h₂ h₃), Text.trim_append_blanks h₁,
      Text.trim_append_blanks h₃, Text.trim_blanks_append h₂, Text.trim_blanks_append h₄]
  · exact ternary?_parts hc (hbranch.conditional ha' hb') b
  · rw [ternary?_trim, ternary?_parts hc' ha']
  · exact ternary?_parts hc ha (conditional c' a' b')
  · rw [ternary?_trim, ternary?_parts hc' ha']

/-- Question marks and colons in parentheses, in placeholders and in quotations do not count, and
the second branch may be anything. -/
theorem ternary?_conditional_hidden :
    ternary? "é('?:') ? x ? $\x7bu ? v : w\x7d : z : y ? ('".toList =
      some ("é('?:')".toList, "x ? $\x7bu ? v : w\x7d : z".toList, "y ? ('".toList) := by
  have hletter : ∀ c ∈ "é".toList, isInert c := List.all_eq_true.mp (by decide)
  have hname : ∀ c ∈ "x ".toList, isInert c := List.all_eq_true.mp (by decide)
  have hblank : ∀ c ∈ " ".toList, isInert c := List.all_eq_true.mp (by decide)
  have hquoted : Exposes ('\x27' :: ("?:".toList ++ ['\x27'])) [] := .quoted rfl (by simp) .nil
  have hcall : Exposes "é('?:')".toList "é".toList :=
    Exposes.inert_append hletter (.group hquoted .nil)
  have hbody : Closed '\x7b' '\x7d' "u ? v : w".toList := .of_forall (by simp [isQuote])
  have hshown : Exposes (placeholder "u ? v : w".toList ++ " : z".toList) " : z".toList :=
    .placeholder hbody (.of_inert (List.all_eq_true.mp (by decide)))
  have hnested : Exposes "x ? $\x7bu ? v : w\x7d : z".toList "x ?  : z".toList :=
    Exposes.inert_append hname
      (.char (by decide) (by decide) (by decide) (by decide) (Exposes.inert_append hblank hshown))
  have hfront : Nested '?' ':' "x ".toList := .of_forall_ne (by simp)
  have hinside : Nested '?' ':' "  ".toList := .of_forall_ne (by simp)
  have hend : Nested '?' ':' " z".toList := .of_forall_ne (by simp)
  have hmatch : Nested '?' ':' "x ?  : z".toList :=
    hfront.append (.group hinside hend)
  have hgaps : ∀ d ∈ [' '] ++ [' '] ++ [' '] ++ [' '], Text.isBlank d :=
    List.all_eq_true.mp (by decide)
  have hsplit := (ternary?_conditional ⟨⟨_, hcall, by decide⟩, by decide⟩
    ⟨_, hnested, hmatch⟩).1 [' '] [' '] [' '] [' '] "y ? ('".toList hgaps
  refine Eq.trans ?_ (hsplit.trans ?_) <;> rfl

end Expr

end ScreenDoc
