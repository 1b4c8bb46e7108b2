import ScreenDoc.Proofs.Expr.Forms
import ScreenDoc.Proofs.Expr.Placeholder

/-!
# Parts of expressions

All texts that are taken out of an expression, whatever its form is, stand in it as they are, and
each leaves out something of it.

## Main definitions

- `Text.IsPart` — a text that stands in another one and is shorter

## Main results

- `Expr.isPart_of_ternary?`, `Expr.isPart_of_contains?` and the like — one for each form
- `Template.isPart_of_mem_pieces`, `PathText.isPart_of_mem_pieces` — placeholders and brackets
- `Token.Spells.isPart` — operands
-/

namespace ScreenDoc

namespace Text

/-- A text that stands in another one, and is shorter. -/
structure IsPart (part text : List Char) : Prop where
  isInfix : part <:+: text
  length_lt : part.length < text.length

theorem trim_isInfix (text : List Char) : trim text <:+: text := by
  obtain ⟨before, after, -, -, -, htext⟩ := exists_blanks text
  exact ⟨before, after, htext.symm⟩

theorem IsPart.trim {part text : List Char} (h : IsPart part text) : IsPart (trim part) text :=
  ⟨(trim_isInfix part).trans h.isInfix, (trim_length_le part).trans_lt h.length_lt⟩

theorem IsPart.of_isInfix {part text whole : List Char} (h : IsPart part text)
    (hwhole : text <:+: whole) : IsPart part whole :=
  ⟨h.isInfix.trans hwhole, h.length_lt.trans_le hwhole.length_le⟩

/-- A part is what stands between two texts that are not both empty. -/
theorem isPart_of_append {part text : List Char} (before after : List Char)
    (h : text = before ++ part ++ after) (hne : before ++ after ≠ []) : IsPart part text := by
  subst h
  refine ⟨⟨before, after, rfl⟩, ?_⟩
  have hpos := List.length_pos_of_ne_nil hne
  simp only [List.length_append] at hpos ⊢
  omega

end Text

open Text (IsPart isPart_of_append)

/-! ### Placeholders, brackets and operands -/

/-- The body of the first placeholder, and what follows it. -/
theorem Template.isPart_of_cut? {template before rest body after : List Char}
    (hcut : Text.cut? Expr.opener template = some (before, rest))
    (hclose : Expr.closePlaceholder? none 0 rest = some (body, after)) :
    IsPart body template ∧ IsPart after template := by
  obtain rfl := Text.eq_append_of_cut? hcut
  obtain ⟨rfl, -⟩ := Expr.passed_of_closePlaceholder? hclose
  constructor
  · exact isPart_of_append (before ++ Expr.opener) ('\x7d' :: after) (by simp) (by simp)
  · exact isPart_of_append (before ++ (Expr.opener ++ (body ++ ['\x7d']))) [] (by simp) (by simp)

theorem Template.isPart_of_mem_pieces {template body : List Char}
    (h : .placeholder body ∈ Template.pieces template) : IsPart body template := by
  fun_induction Template.pieces template with
  | case1 template => simp at h
  | case2 template before rest hcut hclose => simp at h
  | case3 template before rest hcut first after hclose ih =>
    obtain ⟨hfirst, hafter⟩ := isPart_of_cut? hcut hclose
    simp only [List.mem_cons, reduceCtorEq, false_or, Template.Piece.placeholder.injEq] at h
    rcases h with rfl | h
    · exact hfirst
    · exact (ih h).of_isInfix hafter.isInfix

/-- What is in the first brackets, and what follows them. -/
theorem PathText.isPart_of_cut? {path before rest index after : List Char}
    (hcut : Text.cut? ['['] path = some (before, rest))
    (hclose : Expr.closeBracket? '[' ']' 1 rest = some (index, after)) :
    IsPart index path ∧ IsPart after path := by
  obtain rfl := Text.eq_append_of_cut? hcut
  obtain rfl := Expr.eq_append_of_closeBracket? hclose
  constructor
  · exact isPart_of_append (before ++ ['[']) (']' :: after) (by simp) (by simp)
  · exact isPart_of_append (before ++ '[' :: (index ++ [']'])) [] (by simp) (by simp)

theorem PathText.isPart_of_mem_pieces {path index : List Char}
    (h : .bracket index ∈ PathText.pieces path) : IsPart index path := by
  fun_induction PathText.pieces path with
  | case1 path => simp at h
  | case2 path before rest hcut hclose => simp at h
  | case3 path before rest hcut first after hclose ih =>
    obtain ⟨hfirst, hafter⟩ := isPart_of_cut? hcut hclose
    simp only [List.mem_cons, reduceCtorEq, false_or, PathText.Piece.bracket.injEq] at h
    rcases h with rfl | h
    · exact hfirst
    · exact (ih h).of_isInfix hafter.isInfix

namespace Token

theorem Spells.isInfix_of_mem {text : List Char} {tokens : List Token} (h : Spells text tokens)
    {token : Token} (htoken : token ∈ tokens) : token.text <:+: text := by
  induction h with
  | nil => exact absurd htoken List.not_mem_nil
  | @cons blanks rest first tokens _ _ _ ih =>
    rcases List.mem_cons.mp htoken with rfl | htoken
    · exact ⟨blanks, rest, List.append_assoc _ _ _⟩
    · exact (ih htoken).trans ⟨blanks ++ first.text, [], by simp⟩

/-- An operand is a part of a text with an operator. -/
theorem Spells.isPart {text operand : List Char} {tokens : List Token} (h : Spells text tokens)
    (hoperand : .path operand ∈ tokens) (hany : tokens.any isOperator) : IsPart operand text := by
  obtain ⟨operator, hoperator, hsign⟩ := List.any_eq_true.mp hany
  exact ⟨h.isInfix_of_mem hoperand, h.length_lt hoperand hoperator hsign⟩

end Token

namespace Expr

/-! ### Whole expressions -/

/-- What stands between the first and the last character. -/
theorem isPart_dropLast (c : Char) (rest : List Char) : IsPart rest.dropLast (c :: rest) := by
  constructor
  · exact (List.dropLast_prefix rest).isInfix.trans (List.suffix_cons c rest).isInfix
  · rw [List.length_dropLast, List.length_cons]
    omega

theorem isPart_of_withoutParens? {text inner : List Char} (h : withoutParens? text = some inner) :
    IsPart inner text := by
  unfold withoutParens? at h
  split at h
  · obtain ⟨-, heq⟩ := Option.ite_none_right_eq_some.mp h
    cases heq
    exact isPart_dropLast _ _
  · cases h

theorem isPart_of_unquoted? {text inner : List Char} (h : unquoted? text = some inner) :
    IsPart inner text := by
  cases text with
  | nil => cases h
  | cons q rest =>
    obtain ⟨-, heq⟩ := Option.ite_none_right_eq_some.mp h
    cases heq
    exact isPart_dropLast q rest

theorem isPart_of_ternary? {text condition whenTrue whenFalse : List Char}
    (h : ternary? text = some (condition, whenTrue, whenFalse)) :
    IsPart condition text ∧ IsPart whenTrue text ∧ IsPart whenFalse text := by
  obtain ⟨hcondition, htrue, hfalse⟩ := length_lt_of_ternary? h
  rw [ternary?_eq, Option.bind_eq_some_iff] at h
  obtain ⟨⟨q, colon⟩, -, hparts⟩ := h
  obtain ⟨-, hparts⟩ := Option.ite_none_left_eq_some.mp hparts
  cases hparts
  have hdrop (n : Nat) : text.drop n <:+: text := (List.drop_suffix n text).isInfix
  refine ⟨⟨(Text.trim_isInfix _).trans (List.take_prefix q text).isInfix, hcondition⟩,
    ⟨(Text.trim_isInfix _).trans ((List.take_prefix _ _).isInfix.trans (hdrop _)), htrue⟩,
    ⟨(Text.trim_isInfix _).trans (hdrop _), hfalse⟩⟩

theorem isPart_of_contains? {text base argument : List Char}
    (h : contains? text = some (base, argument)) : IsPart base text ∧ IsPart argument text := by
  simp only [contains?, Option.bind_eq_bind, Option.bind_eq_some_iff, Option.ite_none_right_eq_some,
    Option.some.injEq, Prod.exists, Prod.mk.injEq] at h
  obtain ⟨front, hfront, before, after, hcut, -, rfl, rfl⟩ := h
  obtain rfl := Text.eq_append_of_withoutEnd? hfront
  obtain rfl := Text.eq_append_of_cut? hcut
  constructor
  · exact isPart_of_append [] (".contains(".toList ++ after ++ [')']) (by simp) (by simp)
  · exact isPart_of_append (before ++ ".contains(".toList) [')'] (by simp) (by simp)

theorem isPart_of_helper? {text base : List Char} {helper : Helper}
    (h : helper? text = some (helper, base)) : IsPart base text := by
  refine ⟨?_, length_lt_of_helper? h⟩
  obtain ⟨helper, -, hhelper⟩ := List.exists_of_findSome?_eq_some h
  split at hhelper
  · next front hfront =>
    obtain ⟨-, heq⟩ := Option.ite_none_right_eq_some.mp hhelper
    cases heq
    exact (Text.prefix_of_withoutEnd? hfront).isInfix
  · cases hhelper

theorem isPart_of_indexed? {text base index : List Char} (h : indexed? text = some (base, index)) :
    IsPart base text ∧ IsPart index text := by
  have htext := eq_append_of_indexed? h
  exact ⟨isPart_of_append [] ('[' :: (index ++ [']'])) htext (by simp),
    isPart_of_append (base ++ ['[']) [']'] (by simp [htext]) (by simp)⟩

end Expr

end ScreenDoc
