import ScreenDoc.Proofs.Arithmetic.Words
import ScreenDoc.Proofs.Expr.Plain

/-!
# Paths as words

The words of arithmetic know fewer paths than the evaluation of paths does. A bracket ends at the
first closing one, so that brackets in brackets make no word, and a dot has a name behind it. A path
that the words do not know is not put together from several of them either: the brackets of the path
are closed, so that those of each word are, and then the first word is all of the path.

## Main results

- `Token.scan?_append` — words in front of a text
- `Token.Spells.count_le` — words close no more brackets than they open
- `Token.isWord_of_spells` — a path that is read as words is a word
-/

namespace ScreenDoc

/-! ### Texts of several words -/

namespace Token

open Text (EndsRun endsRun_cons)
open ScreenDoc.Expr (isPathText isPathTail)

theorem Spells.blanks_append {blanks text : List Char} {words : List Token}
    (hblanks : ∀ c ∈ blanks, isSpace c) (h : Spells text words) :
    Spells (blanks ++ text) words := by
  cases h with
  | nil hmore => exact .nil (List.forall_mem_append.mpr ⟨hblanks, hmore⟩)
  | cons hmore hword hrest =>
    rw [← List.append_assoc]
    exact .cons (List.forall_mem_append.mpr ⟨hblanks, hmore⟩) hword hrest

theorem Spells.append {a b : List Char} {first last : List Token} (ha : Spells a first)
    (hb : Spells b last) : Spells (a ++ b) (first ++ last) := by
  induction ha with
  | nil hblanks => exact hb.blanks_append hblanks
  | cons hblanks hword _ ih =>
    rw [List.append_assoc, List.append_assoc]
    exact .cons hblanks hword ih

theorem IsWord.spells {token : Token} (h : IsWord token) : Spells token.text [token] := by
  have hnil : ∀ c ∈ ([] : List Char), isSpace c := fun c hc => absurd hc List.not_mem_nil
  have hspells := Spells.cons hnil h (.nil hnil)
  rwa [List.nil_append, List.append_nil] at hspells

theorem scan?_blanks_append {blanks : List Char} (hblanks : ∀ c ∈ blanks, isSpace c)
    (text : List Char) : scan? (blanks ++ text) = scan? text := by
  have hdrop : (blanks ++ text).dropWhile isSpace = text.dropWhile isSpace :=
    List.dropWhile_append_of_pos hblanks
  rw [scan?.eq_def, scan?.eq_def text, hdrop]

theorem IsWord.text_ne_nil {token : Token} (h : IsWord token) : token.text ≠ [] := by
  cases h with
  | integer hne => exact hne
  | path => exact List.cons_ne_nil _ _
  | sign h =>
    cases token with
    | integer => cases h
    | path => cases h
    | _ => exact List.cons_ne_nil _ _

theorem Spells.ne_nil {text : List Char} {token : Token} {tokens : List Token}
    (h : Spells text (token :: tokens)) : text ≠ [] := by
  cases h with
  | cons _ hword => simp [hword.text_ne_nil]

/-- Words in front are taken off if what follows cannot belong to the last of them. -/
theorem scan?_append {a : List Char} {words : List Token} (h : Spells a words)
    (hapart : Apart words) (hlast : ∀ token ∈ words.getLast?, token.isOperand = false)
    (b : List Char) : scan? (a ++ b) = (scan? b).map (words ++ ·) := by
  induction h with
  | nil hblanks => simp [scan?_blanks_append hblanks]
  | @cons blanks rest token tokens hblanks hword hrest ih =>
    have hdrop : (blanks ++ (token.text ++ rest) ++ b).dropWhile isSpace =
        token.text ++ (rest ++ b) := by
      rw [List.append_assoc, List.append_assoc]
      exact Text.dropWhile_append hblanks (endsRun_isSpace_text hword)
    cases tokens with
    | nil =>
      have hends : token.isOperand → EndsRun continues (rest ++ b) := fun hoperand => by
        rw [hlast token rfl] at hoperand
        cases hoperand
      rw [scan?_of_next? (by rw [hdrop]; exact next?_append hword hends), ih .nil (by simp),
        Option.map_map]
      rfl
    | cons next tokens =>
      -- An operand is followed by another word, or by a blank in front of it.
      have hends : token.isOperand → EndsRun continues (rest ++ b) := fun hoperand =>
        (hrest.endsRun_continues fun first hfirst => by
          simpa [hoperand] using hapart.rel_head? hfirst).append_of_ne_nil hrest.ne_nil
      rw [scan?_of_next? (by rw [hdrop]; exact next?_append hword hends),
        ih hapart.tail fun last hmem => hlast last (by simpa using hmem), Option.map_map]
      rfl

/-! ### Brackets of words -/

theorem not_mem_of_isNameChar {name : List Char} (h : ∀ c ∈ name, isNameChar c) :
    '[' ∉ name ∧ ']' ∉ name :=
  ⟨Text.not_mem_of_class h (by decide), Text.not_mem_of_class h (by decide)⟩

/-- A word closes no more brackets than it opens. If it opens no more than it closes, there are no
brackets in brackets. -/
theorem PathTail.count_le {tail : List Char} (h : PathTail tail) :
    tail.count ']' ≤ tail.count '[' ∧
      (tail.count '[' ≤ tail.count ']' → isPathTail 0 tail) := by
  induction h with
  | nil => exact ⟨le_rfl, fun _ => rfl⟩
  | @name name rest _ hname _ ih =>
    obtain ⟨hopening, hclosing⟩ := not_mem_of_isNameChar hname
    have hstep : isPathTail 0 ('.' :: (name ++ rest)) = isPathTail 0 rest := by
      simp [isPathTail, Expr.isPathTail_name rest hname]
    simp only [List.count_cons, List.count_append, List.count_eq_zero_of_not_mem hopening,
      List.count_eq_zero_of_not_mem hclosing, hstep]
    simpa using ih
  | @bracket inside rest hinside _ ih =>
    obtain ⟨hle, htail⟩ := ih
    have hclosing : inside.count ']' = 0 :=
      List.count_eq_zero_of_not_mem fun hmem => hinside _ hmem rfl
    have hopens : ('[' :: (inside ++ ']' :: rest)).count '[' =
        inside.count '[' + rest.count '[' + 1 := by
      simp [List.count_append]
    have hcloses : ('[' :: (inside ++ ']' :: rest)).count ']' = rest.count ']' + 1 := by
      simp [List.count_append, hclosing]
    rw [hopens, hcloses]
    refine ⟨by omega, fun hcount => ?_⟩
    have hopening : '[' ∉ inside := List.count_eq_zero.mp (by omega)
    have hne : ∀ c ∈ inside, c ≠ '[' ∧ c ≠ ']' :=
      fun c hc => ⟨fun heq => hopening (heq ▸ hc), hinside c hc⟩
    rw [isPathTail, if_pos rfl, Expr.isPathTail_inside rest hne]
    exact htail (by omega)

theorem IsWord.count_le {token : Token} (h : IsWord token) :
    token.text.count ']' ≤ token.text.count '[' := by
  cases h with
  | @integer digits _ hdigits =>
    have hclosing : ']' ∉ digits := Text.not_mem_of_class hdigits (by decide)
    rw [text, List.count_eq_zero_of_not_mem hclosing]
    exact Nat.zero_le _
  | @path start name tail hstart hname htail =>
    have hnames : ∀ c ∈ start :: name, isNameChar c :=
      List.forall_mem_cons.mpr ⟨isNameChar_of_isNameStart hstart, hname⟩
    obtain ⟨hopening, hclosing⟩ := not_mem_of_isNameChar hnames
    rw [text, ← List.cons_append, List.count_append, List.count_append,
      List.count_eq_zero_of_not_mem hopening, List.count_eq_zero_of_not_mem hclosing, Nat.zero_add,
      Nat.zero_add]
    exact htail.count_le.1
  | sign h =>
    cases token with
    | integer => cases h
    | path => cases h
    | _ => decide

theorem Spells.count_le {text : List Char} {tokens : List Token} (h : Spells text tokens) :
    text.count ']' ≤ text.count '[' := by
  have hblank {blanks : List Char} (hblanks : ∀ c ∈ blanks, isSpace c) : blanks.count ']' = 0 :=
    List.count_eq_zero_of_not_mem (Text.not_mem_of_class hblanks (by decide))
  induction h with
  | nil hblanks =>
    rw [hblank hblanks]
    exact Nat.zero_le _
  | cons hblanks hword _ ih =>
    have hle := hword.count_le
    rw [List.count_append, List.count_append, List.count_append, List.count_append,
      hblank hblanks]
    omega

theorem count_of_isPathTail {brackets : Nat} {text : List Char} (h : isPathTail brackets text) :
    brackets + text.count '[' = text.count ']' := by
  fun_induction isPathTail brackets text with
  | case1 brackets =>
    rw [of_decide_eq_true h]
    rfl
  | case2 brackets rest ih =>
    have := ih h
    simp only [List.count_cons]
    simp
    omega
  | case3 brackets rest _ ih =>
    obtain ⟨hpos, hrest⟩ := Bool.and_eq_true_iff.mp h
    have := ih hrest
    have := of_decide_eq_true hpos
    simp only [List.count_cons]
    simp
    omega
  | case4 brackets c rest hopening hclosing _ ih =>
    rw [List.count_cons_of_ne hopening, List.count_cons_of_ne hclosing]
    exact ih h
  | case5 brackets c rest hopening hclosing hzero ih =>
    rw [List.count_cons_of_ne hopening, List.count_cons_of_ne hclosing]
    have := ih (Bool.and_eq_true_iff.mp h).2
    omega

theorem isPathTail_append {brackets : Nat} {a : List Char} (h : isPathTail brackets a)
    (b : List Char) : isPathTail brackets (a ++ b) = isPathTail 0 b := by
  fun_induction isPathTail brackets a with
  | case1 brackets =>
    rw [of_decide_eq_true h]
    rfl
  | case2 brackets rest ih =>
    rw [List.cons_append, isPathTail, if_pos rfl]
    exact ih h
  | case3 brackets rest hopening ih =>
    obtain ⟨hpos, hrest⟩ := Bool.and_eq_true_iff.mp h
    rw [List.cons_append, isPathTail, if_neg hopening, if_pos rfl, hpos, Bool.true_and]
    exact ih hrest
  | case4 brackets c rest hopening hclosing hpos ih =>
    rw [List.cons_append, isPathTail, if_neg hopening, if_neg hclosing, if_pos hpos]
    exact ih h
  | case5 brackets c rest hopening hclosing hpos ih =>
    obtain ⟨hc, hrest⟩ := Bool.and_eq_true_iff.mp h
    rw [List.cons_append, isPathTail, if_neg hopening, if_neg hclosing, if_neg hpos, hc,
      Bool.true_and]
    exact ih hrest

/-- The text of a path goes on like an operand. -/
theorem continues_of_isPathTail {c : Char} {rest : List Char} (h : isPathTail 0 (c :: rest)) :
    continues c := by
  rw [isPathTail] at h
  by_cases hopening : c = '['
  · rw [hopening]
    decide
  · rw [if_neg hopening] at h
    by_cases hclosing : c = ']'
    · rw [if_pos hclosing] at h
      cases h
    · rw [if_neg hclosing, if_neg (Nat.lt_irrefl 0)] at h
      have hclass := (Bool.and_eq_true_iff.mp h).1
      simp only [continues, isNameChar, hclass, Bool.true_or]

/-- The first word of a text that begins like an identifier. -/
theorem exists_path_of_spells {start : Char} {text : List Char} {words : List Token}
    (hstart : isNameStart start) (h : Spells (start :: text) words) :
    ∃ inner rest others, text = inner ++ rest ∧ words = .path (start :: inner) :: others ∧
      IsWord (.path (start :: inner)) ∧ Spells rest others := by
  have hspace : isSpace start = false := by
    rw [Bool.eq_false_iff]
    intro hspace
    have hnot := continues_eq_false_of_isSpace hspace
    rw [continues, isNameChar_of_isNameStart hstart] at hnot
    cases hnot
  generalize htext : start :: text = whole at h
  cases h with
  | nil hblanks =>
    rw [hblanks start (htext ▸ List.mem_cons_self)] at hspace
    cases hspace
  | @cons blanks rest token others hblanks hword hrest =>
    cases blanks with
    | cons blank blanks =>
      obtain ⟨rfl, -⟩ := List.cons.inj htext
      rw [hblanks start List.mem_cons_self] at hspace
      cases hspace
    | nil =>
      rw [List.nil_append] at htext
      cases hword with
      | @integer digits hne hdigits =>
        cases digits with
        | nil => exact absurd rfl hne
        | cons digit digits =>
          obtain ⟨rfl, -⟩ := List.cons.inj htext
          have hdigit := hdigits start List.mem_cons_self
          rw [isDigit_eq_false_of_isNameStart hstart] at hdigit
          cases hdigit
      | @path first name tail hfirst hname htail =>
        obtain ⟨rfl, hmore⟩ := List.cons.inj htext
        exact ⟨name ++ tail, rest, others, hmore, rfl, .path hstart hname htail, hrest⟩
      | sign hsign =>
        have hne {c : Char} (hc : isNameStart c = false) : start ≠ c := Text.ne_of_class hstart hc
        cases token with
        | integer => cases hsign
        | path => cases hsign
        | _ => exact absurd (List.cons.inj htext).1 (hne (by decide))

/-- A path is a word if it is read as words, behind something or in front of something. -/
theorem isWord_of_spells {p tail : List Char} {words : List Token} (hpath : isPathText p)
    (hspells : Spells (p ++ tail) words) (hapart : Apart words) (htail : EndsRun continues tail)
    (hopening : '[' ∉ tail) (hclosing : ']' ∉ tail) : IsWord (.path p) := by
  cases p with
  | nil => cases hpath
  | cons start more =>
    obtain ⟨hstart, hmore⟩ := Bool.and_eq_true_iff.mp hpath
    obtain ⟨inner, rest, others, htext, rfl, hword, hrest⟩ :=
      exists_path_of_spells hstart hspells
    have hends : EndsRun continues rest := hrest.endsRun_continues fun next hnext => by
      simpa [isOperand] using hapart.rel_head? hnext
    have hinner : isPathTail 0 inner := by
      cases hword with
      | sign hsign => cases hsign
      | @path _ name steps _ hname hsteps =>
        -- The path opens as many brackets as it closes, so that each of the words does.
        obtain ⟨hnoopening, hnoclosing⟩ := not_mem_of_isNameChar hname
        have hcount := count_of_isPathTail hmore
        have hlerest := hrest.count_le
        have hopens := congrArg (List.count '[') htext
        have hcloses := congrArg (List.count ']') htext
        simp only [List.append_eq, List.count_append, List.count_eq_zero_of_not_mem hopening,
          List.count_eq_zero_of_not_mem hclosing, List.count_eq_zero_of_not_mem hnoopening,
          List.count_eq_zero_of_not_mem hnoclosing] at hopens hcloses
        rw [Expr.isPathTail_name steps hname]
        exact hsteps.count_le.2 (by omega)
    -- The first word and the path begin the same text, and neither can go on behind the other.
    rcases List.append_eq_append_iff.mp htext with ⟨mid, rfl, rfl⟩ | ⟨mid, rfl, rfl⟩
    · cases mid with
      | nil => rwa [List.append_nil] at hword
      | cons c mid =>
        rw [isPathTail_append hmore] at hinner
        have hcontinues := continues_of_isPathTail hinner
        rw [endsRun_cons.mp htail] at hcontinues
        cases hcontinues
    · cases mid with
      | nil => rwa [List.append_nil]
      | cons c mid =>
        rw [isPathTail_append hinner] at hmore
        have hcontinues := continues_of_isPathTail hmore
        rw [endsRun_cons.mp hends] at hcontinues
        cases hcontinues

end Token

end ScreenDoc
