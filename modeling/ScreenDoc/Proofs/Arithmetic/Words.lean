import Mathlib.Data.List.Chain
import ScreenDoc.Arithmetic.Token
import ScreenDoc.Proofs.Text.Run

/-!
# The words of a text

A text spells a list of words if it is made of these words, in order, with blanks anywhere around
them. Scanning finds a list of words that the text spells. It finds a given list if no two operands
of the list are next to each other: two operands without a blank between them may read as a longer
one.

## Main definitions

- `Token.PathTail`, `Token.IsWord` — the patterns of words
- `Token.Spells` — a text that is made of words and blanks
- `Token.Apart` — no two operands next to each other

## Main results

- `Token.spells_of_scan?` — a scanned text spells its words
- `Token.scan?_of_spells` — a text that spells words with operands apart is scanned as these words

## Design notes

The patterns say what a word is, and the scanner takes the longest match of them. Here no pattern
mentions the length of a match. The longest match of an operand is the operand itself because what
comes after it, a blank, an operator or a parenthesis, continues no operand (`continues`).
-/

namespace ScreenDoc

namespace Token

open Text (EndsRun endsRun_nil endsRun_cons takeWhile_append dropWhile_append)

/-! ### Patterns -/

/-- Whether a word is an integer or a path. -/
def isOperand : Token → Bool
  | .integer _ | .path _ => true
  | _ => false

/-- What may follow the first identifier of a path: any number of steps, each a dot with letters,
digits and underscores, or square brackets around anything but a closing one. -/
inductive PathTail : List Char → Prop where
  | nil : PathTail []
  | name {name rest : List Char} (hne : name ≠ []) (hname : ∀ c ∈ name, isNameChar c)
      (hrest : PathTail rest) : PathTail ('.' :: (name ++ rest))
  | bracket {inside rest : List Char} (hinside : ∀ c ∈ inside, c ≠ ']')
      (hrest : PathTail rest) : PathTail ('[' :: (inside ++ ']' :: rest))

/-- The words: digits, an identifier with steps, and the signs. -/
inductive IsWord : Token → Prop where
  | integer {digits : List Char} (hne : digits ≠ []) (hdigits : ∀ c ∈ digits, c.isDigit) :
      IsWord (.integer digits)
  | path {start : Char} {name tail : List Char} (hstart : isNameStart start)
      (hname : ∀ c ∈ name, isNameChar c) (htail : PathTail tail) :
      IsWord (.path (start :: (name ++ tail)))
  | sign {token : Token} (h : token.isOperand = false) : IsWord token

/-- A text that is made of words, in order, with blanks around them. A blank is a space, a tab or
one of the two characters of a newline. -/
inductive Spells : List Char → List Token → Prop where
  | nil {blanks : List Char} (hblanks : ∀ c ∈ blanks, isSpace c) : Spells blanks []
  | cons {blanks rest : List Char} {token : Token} {tokens : List Token}
      (hblanks : ∀ c ∈ blanks, isSpace c) (hword : IsWord token) (hrest : Spells rest tokens) :
      Spells (blanks ++ (token.text ++ rest)) (token :: tokens)

/-- No two operands are next to each other. -/
def Apart (tokens : List Token) : Prop :=
  tokens.IsChain fun a b => !(a.isOperand && b.isOperand)

/-! ### Scanned words -/

theorem eq_append_of_pathStep? {text step rest : List Char}
    (h : pathStep? text = some (step, rest)) :
    text = step ++ rest ∧ ∀ tail, PathTail tail → PathTail (step ++ tail) := by
  unfold pathStep? at h
  split at h
  · next rest =>
    simp only at h
    split at h
    · cases h
    · next hne =>
      cases h
      rw [List.isEmpty_iff] at hne
      refine ⟨?_, fun tail htail => .name hne (fun c => List.mem_takeWhile_imp) htail⟩
      rw [List.cons_append, List.takeWhile_append_dropWhile]
  · next rest =>
    split at h
    · cases h
    · next c after hdrop =>
      cases h
      refine ⟨?_, fun tail htail => ?_⟩
      · simpa using Text.eq_append_cons_of_dropWhile hdrop
      · have hinside : ∀ c ∈ rest.takeWhile (· ≠ ']'), c ≠ ']' := fun c hc => by
          simpa using List.mem_takeWhile_imp hc
        simpa using PathTail.bracket hinside htail
  · cases h

theorem pathTail_pathSteps (text : List Char) :
    text = (pathSteps text).1 ++ (pathSteps text).2 ∧ PathTail (pathSteps text).1 := by
  fun_induction pathSteps text with
  | case1 text step rest h steps after heq ih =>
    obtain ⟨htext, hstep⟩ := eq_append_of_pathStep? h
    rw [heq] at ih
    exact ⟨by rw [List.append_assoc, ← ih.1, ← htext], hstep steps ih.2⟩
  | case2 text h => exact ⟨rfl, .nil⟩

theorem eq_append_of_single? {c : Char} {token : Token} (h : single? c = some token) :
    token.text = [c] ∧ token.isOperand = false := by
  unfold single? at h
  split_ifs at h with h₁ h₂ h₃ h₄ h₅ h₆ h₇ <;> cases h <;> subst c <;> exact ⟨rfl, rfl⟩

/-- The word that is taken stands at the start of the text. -/
theorem eq_append_of_next? {text rest : List Char} {token : Token}
    (h : next? text = some (token, rest)) : text = token.text ++ rest ∧ IsWord token := by
  unfold next? at h
  split at h
  · cases h
  · next c tail =>
    split at h
    · next hc =>
      cases h
      refine ⟨?_, .integer (List.cons_ne_nil _ _) fun d hd => ?_⟩
      · rw [text, List.cons_append, List.takeWhile_append_dropWhile]
      · cases hd with
        | head => exact hc
        | tail _ hd => exact List.mem_takeWhile_imp hd
    · split at h
      · next hc =>
        cases h
        obtain ⟨hsteps, htail⟩ := pathTail_pathSteps (tail.dropWhile isNameChar)
        refine ⟨?_, .path hc (fun d => List.mem_takeWhile_imp) htail⟩
        simp only [text, List.cons_append]
        rw [List.append_assoc, ← hsteps, List.takeWhile_append_dropWhile]
      · rw [Option.map_eq_some_iff] at h
        obtain ⟨found, hfound, heq⟩ := h
        cases heq
        obtain ⟨htext, hsign⟩ := eq_append_of_single? hfound
        exact ⟨by rw [htext]; rfl, .sign hsign⟩

/-- A scanned text spells its words. -/
theorem spells_of_scan? {text : List Char} {tokens : List Token} (h : scan? text = some tokens) :
    Spells text tokens := by
  fun_induction scan? text generalizing tokens with
  | case1 text token rest hnext ih =>
    rw [Option.map_eq_some_iff] at h
    obtain ⟨tokens, htokens, rfl⟩ := h
    obtain ⟨htext, hword⟩ := eq_append_of_next? hnext
    rw [← List.takeWhile_append_dropWhile (p := isSpace) (l := text), htext]
    exact .cons (fun c => List.mem_takeWhile_imp) hword (ih htokens)
  | case2 text hnext hblank =>
    cases h
    exact .nil fun c hc => List.dropWhile_eq_nil_iff.mp (List.isEmpty_iff.mp hblank) c hc
  | case3 text hnext hblank => cases h

/-! ### Longest matches -/

/-- Whether an operand may go on with a character. -/
def continues (c : Char) : Bool :=
  isNameChar c || c = '.' || c = '['

theorem isNameChar_of_isDigit {c : Char} (h : c.isDigit) : isNameChar c := by
  simp [isNameChar, Char.isAlphanum, h]

theorem isNameChar_of_isNameStart {c : Char} (h : isNameStart c) : isNameChar c := by
  simp only [isNameStart, Bool.or_eq_true] at h
  simp only [isNameChar, Char.isAlphanum, Bool.or_eq_true]
  tauto

theorem isDigit_eq_false_of_isNameStart {c : Char} (h : isNameStart c) : c.isDigit = false := by
  simp only [isNameStart, Bool.or_eq_true, decide_eq_true_eq] at h
  rw [← Bool.not_eq_true]
  intro hdigit
  have hdigits : c.toNat ≤ 57 := of_decide_eq_true (Bool.and_eq_true_iff.mp hdigit).2
  rcases h with h | rfl
  · -- Letters lie above the digits.
    have hletters : 65 ≤ c.toNat ∨ 97 ≤ c.toNat :=
      (Bool.or_eq_true_iff.mp h).imp (fun hupper => (of_decide_eq_true hupper).1)
        fun hlower => of_decide_eq_true (Bool.and_eq_true_iff.mp hlower).1
    omega
  · exact absurd hdigit (by decide)

theorem continues_eq_false_of_isSpace {c : Char} (h : isSpace c) : continues c = false := by
  simp only [isSpace, Bool.or_eq_true, decide_eq_true_eq] at h
  rcases h with ((rfl | rfl) | rfl) | rfl <;> decide

/-- A kind of characters that continue an operand ends where operands end. -/
theorem endsRun_of_continues {kind : Char → Bool} {text : List Char}
    (hkind : ∀ c, kind c → continues c) (h : EndsRun continues text) : EndsRun kind text := by
  intro c hc
  cases hkc : kind c with
  | false => rfl
  | true => rw [← h c hc, hkind c hkc]

theorem endsRun_isNameChar_append {tail rest : List Char} (htail : PathTail tail)
    (hrest : EndsRun continues rest) : EndsRun isNameChar (tail ++ rest) := by
  cases htail with
  | nil => exact endsRun_of_continues (fun c hc => by simp [continues, hc]) hrest
  | name => exact endsRun_cons.mpr (by decide)
  | bracket => exact endsRun_cons.mpr (by decide)

theorem pathStep?_eq_none {text : List Char} (h : EndsRun continues text) :
    pathStep? text = none := by
  unfold pathStep?
  split
  · exact absurd (endsRun_cons.mp h) (by decide)
  · exact absurd (endsRun_cons.mp h) (by decide)
  · rfl

theorem pathSteps_of_some {text step rest : List Char} (h : pathStep? text = some (step, rest)) :
    pathSteps text = (step ++ (pathSteps rest).1, (pathSteps rest).2) := by
  rw [pathSteps]
  split
  · next step' rest' h' =>
    rw [h] at h'
    cases h'
    rfl
  · next h' => rw [h] at h'; cases h'

theorem pathSteps_of_none {text : List Char} (h : pathStep? text = none) :
    pathSteps text = ([], text) := by
  rw [pathSteps]
  split
  · next h' => rw [h] at h'; cases h'
  · rfl

theorem pathStep?_name {name rest : List Char} (hne : name ≠ [])
    (hname : ∀ c ∈ name, isNameChar c) (hrest : EndsRun isNameChar rest) :
    pathStep? ('.' :: (name ++ rest)) = some ('.' :: name, rest) := by
  simp [pathStep?, takeWhile_append hname hrest, dropWhile_append hname hrest, hne]

theorem pathStep?_bracket {inside rest : List Char} (hinside : ∀ c ∈ inside, c ≠ ']') :
    pathStep? ('[' :: (inside ++ ']' :: rest)) = some ('[' :: (inside ++ [']']), rest) := by
  have hrun : ∀ c ∈ inside, decide (c ≠ ']') := fun c hc => decide_eq_true (hinside c hc)
  have hend : EndsRun (fun c => decide (c ≠ ']')) (']' :: rest) := endsRun_cons.mpr (by decide)
  simp only [pathStep?]
  rw [dropWhile_append hrun hend, takeWhile_append hrun hend]
  rfl

/-- The steps of a path are all taken if what follows them continues no operand. -/
theorem pathSteps_append {tail rest : List Char} (htail : PathTail tail)
    (hrest : EndsRun continues rest) : pathSteps (tail ++ rest) = (tail, rest) := by
  induction htail with
  | nil => exact pathSteps_of_none (pathStep?_eq_none hrest)
  | @name name after hne hname hafter ih =>
    rw [List.cons_append, List.append_assoc,
      pathSteps_of_some (pathStep?_name hne hname (endsRun_isNameChar_append hafter hrest)), ih]
    rfl
  | @bracket inside after hinside hafter ih =>
    rw [List.cons_append, List.append_assoc, List.cons_append,
      pathSteps_of_some (pathStep?_bracket hinside), ih]
    simp

/-- A word is taken as it is if, being an operand, it is not continued by what follows. -/
theorem next?_append {token : Token} {rest : List Char} (hword : IsWord token)
    (hrest : token.isOperand → EndsRun continues rest) :
    next? (token.text ++ rest) = some (token, rest) := by
  cases hword with
  | @integer digits hne hdigits =>
    cases digits with
    | nil => exact absurd rfl hne
    | cons c digits =>
      have hend : EndsRun Char.isDigit rest :=
        endsRun_of_continues (fun d hd => by simp [continues, isNameChar_of_isDigit hd])
          (hrest rfl)
      obtain ⟨hc, hdigits⟩ := List.forall_mem_cons.mp hdigits
      simp [next?, text, hc, takeWhile_append hdigits hend, dropWhile_append hdigits hend]
  | @path start name tail hstart hname htail =>
    have hend := endsRun_isNameChar_append htail (hrest rfl)
    simp only [next?, text, List.cons_append, List.append_assoc,
      isDigit_eq_false_of_isNameStart hstart, hstart, takeWhile_append hname hend,
      dropWhile_append hname hend, pathSteps_append htail (hrest rfl)]
    rfl
  | sign h =>
    cases token with
    | integer => cases h
    | path => cases h
    | _ => rfl

/-! ### Spelled words -/

theorem scan?_of_next? {text rest : List Char} {token : Token}
    (h : next? (text.dropWhile isSpace) = some (token, rest)) :
    scan? text = (scan? rest).map (token :: ·) := by
  rw [scan?]
  split
  · next h' =>
    rw [h] at h'
    cases h'
    rfl
  · next h' => rw [h] at h'; cases h'

theorem scan?_of_blank {text : List Char} (h : text.dropWhile isSpace = []) :
    scan? text = some [] := by
  rw [scan?]
  split
  · next h' => rw [h] at h'; cases h'
  · rw [h]; rfl

/-- A word does not start with a blank. -/
theorem endsRun_isSpace_text {token : Token} {rest : List Char} (hword : IsWord token) :
    EndsRun isSpace (token.text ++ rest) := by
  have hfirst {c : Char} (text : List Char) (hc : isNameChar c) : EndsRun isSpace (c :: text) := by
    rw [endsRun_cons, ← Bool.not_eq_true]
    intro hspace
    have := continues_eq_false_of_isSpace hspace
    simp [continues, hc] at this
  cases hword with
  | @integer digits hne hdigits =>
    cases digits with
    | nil => exact absurd rfl hne
    | cons c digits => exact hfirst _ (isNameChar_of_isDigit (hdigits c List.mem_cons_self))
  | path hstart => exact hfirst _ (isNameChar_of_isNameStart hstart)
  | sign h =>
    cases token with
    | integer => cases h
    | path => cases h
    | _ => exact endsRun_cons.mpr (by decide)

/-- A text that spells no operand first continues no operand. -/
theorem Spells.endsRun_continues {text : List Char} {tokens : List Token} (h : Spells text tokens)
    (hhead : ∀ token ∈ tokens.head?, token.isOperand = false) : EndsRun continues text := by
  cases h with
  | nil hblanks =>
    intro c hc
    exact continues_eq_false_of_isSpace (hblanks c (List.mem_of_mem_head? hc))
  | @cons blanks rest token tokens hblanks hword hrest =>
    cases blanks with
    | cons c blanks =>
      exact endsRun_cons.mpr (continues_eq_false_of_isSpace (hblanks c List.mem_cons_self))
    | nil =>
      -- Only a sign stands here, and none of them continues an operand.
      have hsign := hhead token rfl
      cases token with
      | integer => cases hsign
      | path => cases hsign
      | _ => exact endsRun_cons.mpr (by decide)

/-- A text that spells words with operands apart is scanned as these words. -/
theorem scan?_of_spells {text : List Char} {tokens : List Token} (h : Spells text tokens)
    (hapart : Apart tokens) : scan? text = some tokens := by
  induction h with
  | nil hblanks => exact scan?_of_blank (List.dropWhile_eq_nil_iff.mpr hblanks)
  | @cons blanks rest token tokens hblanks hword hrest ih =>
    have hdrop : (blanks ++ (token.text ++ rest)).dropWhile isSpace = token.text ++ rest :=
      dropWhile_append hblanks (endsRun_isSpace_text hword)
    have hends : token.isOperand → EndsRun continues rest := fun hoperand =>
      hrest.endsRun_continues fun next hnext => by
        simpa [hoperand] using hapart.rel_head? hnext
    rw [scan?_of_next? (by rw [hdrop]; exact next?_append hword hends), ih hapart.tail]
    rfl

end Token

end ScreenDoc
