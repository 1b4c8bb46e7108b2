import ScreenDoc.Proofs.Expr.Forms
import ScreenDoc.Proofs.Expr.Ternary

/-!
# Where a placeholder ends

Two scans pass over a placeholder. The one for operators finds openers by looking ahead and counts
the braces that are open; the one for templates starts behind the opener and counts the braces that
its body opens. They are never apart by more than the one brace of the opener, so that both come to
the end of a placeholder at the same character.

## Main definitions

- `Expr.openAfter`, `Expr.Outside` — what the scan for operators has open after a text, and texts
  after which nothing is
- `Expr.FirstOutside` — the scan is outside for the first time behind the brace after a body
- `Template.exposedFrom` — what is outside of the placeholders of a template that is taken apart

## Main results

- `Expr.scan_append` — a text is scanned from where the scan of the text in front of it stands
- `Expr.closePlaceholder?_iff_openAfter` — the step by step relation between the scans
- `Expr.closePlaceholder?_iff_firstOutside` — both scans end a placeholder at the same brace
- `Template.topLevelFrom_eq_exposedFrom` — the scan for operators skips just the placeholders that
  the template is filled at
-/

namespace ScreenDoc

namespace Expr

open Template (placeholder)

/-! ### The state of the scan for operators -/

/-- The open quotation mark and the number of open braces after a text, given those in front of
it. -/
def openAfter : Option Char → Nat → List Char → Option Char × Nat
  | quote, braces, [] => (quote, braces)
  | some q, braces, c :: rest => openAfter (if c = q then none else some q) braces rest
  | none, braces, '$' :: '\x7b' :: rest => openAfter none (braces + 1) rest
  | none, braces, c :: rest =>
    if isQuote c then openAfter (some c) braces rest
    else if braces = 0 then openAfter none 0 rest
    else if c = '\x7b' then openAfter none (braces + 1) rest
    else if c = '\x7d' then openAfter none (braces - 1) rest
    else openAfter none braces rest

/-- Whether the scan is outside of quotes and placeholders after a text. -/
def Outside (text : List Char) : Prop :=
  openAfter none 0 text = (none, 0)

instance (text : List Char) : Decidable (Outside text) :=
  inferInstanceAs (Decidable (_ = _))

/-- A text is scanned from where the scan of the text in front of it stands, unless an opener comes
about where they meet. -/
theorem scan_append {b : List Char} (hmeet : b.head? ≠ some '\x7b') (quote : Option Char)
    (braces i : Nat) (a : List Char) :
    topLevelFrom quote braces i (a ++ b) = topLevelFrom quote braces i a ++
        topLevelFrom (openAfter quote braces a).1 (openAfter quote braces a).2 (i + a.length) b ∧
      openAfter quote braces (a ++ b) =
        openAfter (openAfter quote braces a).1 (openAfter quote braces a).2 b := by
  -- An opener that the text does not have is not completed by what is behind it.
  have happend {c : Char} {rest : List Char} (h : ∀ more, c = '$' → rest = '\x7b' :: more → False) :
      ∀ more, c = '$' → rest ++ b = '\x7b' :: more → False := by
    intro more hc heq
    cases rest with
    | nil => exact hmeet (by rw [← List.nil_append b, heq, List.head?_cons])
    | cons first others => exact h others hc (by rw [(List.cons.inj heq).1])
  have hlength (i : Nat) (c : Char) (rest : List Char) :
      i + (c :: rest).length = i + 1 + rest.length := by
    rw [List.length_cons, Nat.add_right_comm, Nat.add_assoc]
  fun_induction topLevelFrom quote braces i a with
  | case1 => cases ‹Option Char› <;> exact ⟨rfl, rfl⟩
  | case2 q braces i c rest ih =>
    rw [List.cons_append, topLevelFrom, openAfter, openAfter, ih.1, ih.2, hlength]
    exact ⟨rfl, rfl⟩
  | case3 braces i rest ih =>
    rw [List.cons_append, List.cons_append, topLevelFrom, openAfter, openAfter, ih.1, ih.2,
      hlength, hlength]
    exact ⟨rfl, rfl⟩
  | case4 braces i c rest hopener hquote ih =>
    rw [List.cons_append, topLevelFrom.eq_4 _ _ _ _ (happend hopener),
      openAfter.eq_4 _ _ _ (happend hopener), openAfter.eq_4 _ _ _ hopener]
    simp only [if_pos hquote, ih.1, ih.2, hlength, and_self]
  | case5 i c rest hopener hquote ih =>
    rw [List.cons_append, topLevelFrom.eq_4 _ _ _ _ (happend hopener),
      openAfter.eq_4 _ _ _ (happend hopener), openAfter.eq_4 _ _ _ hopener]
    simp only [if_neg hquote, if_true, ih.1, ih.2, hlength, List.cons_append, and_self]
  | case6 braces i rest hbraces hopener hquote ih =>
    rw [List.cons_append, topLevelFrom.eq_4 _ _ _ _ (happend hopener),
      openAfter.eq_4 _ _ _ (happend hopener), openAfter.eq_4 _ _ _ hopener]
    simp only [if_neg hquote, if_neg hbraces, if_true, ih.1, ih.2, hlength, and_self]
  | case7 braces i rest hbraces hopener hquote hopen ih =>
    rw [List.cons_append, topLevelFrom.eq_4 _ _ _ _ (happend hopener),
      openAfter.eq_4 _ _ _ (happend hopener), openAfter.eq_4 _ _ _ hopener]
    simp only [if_neg hquote, if_neg hbraces, if_neg hopen, if_true, ih.1, ih.2, hlength, and_self]
  | case8 braces i c rest hopener hquote hbraces hopen hclose ih =>
    rw [List.cons_append, topLevelFrom.eq_4 _ _ _ _ (happend hopener),
      openAfter.eq_4 _ _ _ (happend hopener), openAfter.eq_4 _ _ _ hopener]
    simp only [if_neg hquote, if_neg hbraces, if_neg hopen, if_neg hclose, ih.1, ih.2, hlength,
      and_self]

/-! ### The scans of a body -/

/-- The quotation mark and the braces that are open after one more character of a body. -/
def passOver : Option Char → Nat → Char → Option Char × Nat
  | some q, depth, c => (if c = q then none else some q, depth)
  | none, depth, c =>
    (if isQuote c then some c else none,
      if c = '\x7b' then depth + 1 else if c = '\x7d' then depth - 1 else depth)

theorem closePlaceholder?_cons {quote : Option Char} {depth : Nat} {c : Char}
    (h : ¬(quote = none ∧ c = '\x7d' ∧ depth = 0)) (rest : List Char) :
    closePlaceholder? quote depth (c :: rest) =
      (closePlaceholder? (passOver quote depth c).1 (passOver quote depth c).2 rest).map
        fun (body, after) => (c :: body, after) := by
  cases quote with
  | some q => rfl
  | none =>
    rw [closePlaceholder?, if_neg (by simpa using h)]
    rfl

/-- The scan for operators has the brace of the opener open in addition. A dollar sign in front of a
brace is scanned with it, to the same effect. -/
theorem scan_cons {quote : Option Char} {depth : Nat} {c : Char}
    (h : ¬(quote = none ∧ c = '\x7d' ∧ depth = 0)) (i : Nat) (rest : List Char) :
    topLevelFrom quote (depth + 1) i (c :: rest) =
        topLevelFrom (passOver quote depth c).1 ((passOver quote depth c).2 + 1) (i + 1) rest ∧
      openAfter quote (depth + 1) (c :: rest) =
        openAfter (passOver quote depth c).1 ((passOver quote depth c).2 + 1) rest := by
  cases quote with
  | some q => exact ⟨rfl, rfl⟩
  | none =>
    have hbrace : isQuote '\x7b' = false := by decide
    have hne : ¬depth + 1 = 0 := Nat.succ_ne_zero depth
    by_cases hopener : ∃ more, c = '$' ∧ rest = '\x7b' :: more
    · obtain ⟨more, rfl, rfl⟩ := hopener
      have hpass : passOver none depth '$' = (none, depth) := rfl
      rw [hpass, topLevelFrom, openAfter,
        topLevelFrom.eq_4 _ _ _ _ fun _ heq => absurd heq (by decide),
        openAfter.eq_4 _ _ _ fun _ heq => absurd heq (by decide)]
      simp only [hbrace, hne, Bool.false_eq_true, if_false, if_true, and_self]
    · have hnot : ∀ more, c = '$' → rest = '\x7b' :: more → False :=
        fun more hc hrest => hopener ⟨more, hc, hrest⟩
      rw [topLevelFrom.eq_4 _ _ _ _ hnot, openAfter.eq_4 _ _ _ hnot, passOver]
      by_cases hquote : isQuote c
      · have hopen : c ≠ '\x7b' := Text.ne_of_class hquote hbrace
        have hclose : c ≠ '\x7d' := Text.ne_of_class hquote (by decide)
        simp only [hquote, hopen, hclose, if_true, if_false, and_self]
      · have hquote : isQuote c = false := Bool.eq_false_iff.mpr hquote
        by_cases hopen : c = '\x7b'
        · subst hopen
          simp only [hbrace, hne, Bool.false_eq_true, if_true, if_false, and_self]
        · by_cases hclose : c = '\x7d'
          · have hdepth : depth - 1 + 1 = depth :=
              Nat.succ_pred_eq_of_ne_zero fun hzero => h ⟨rfl, hclose, hzero⟩
            subst hclose
            simp only [hquote, hne, hopen, hdepth, Nat.add_sub_cancel, Bool.false_eq_true, if_true,
              if_false, and_self]
          · simp only [hquote, hne, hopen, hclose, Bool.false_eq_true, if_false, and_self]

/-- Both scans come to the end of a placeholder together. -/
theorem scan_end (i : Nat) (rest : List Char) :
    topLevelFrom none 1 i ('\x7d' :: rest) = topLevelFrom none 0 (i + 1) rest ∧
      openAfter none 1 ('\x7d' :: rest) = openAfter none 0 rest := by
  have hbrace : isQuote '\x7d' = false := by decide
  rw [topLevelFrom.eq_4 _ _ _ _ fun _ heq => absurd heq (by decide),
    openAfter.eq_4 _ _ _ fun _ heq => absurd heq (by decide), hbrace]
  exact ⟨rfl, rfl⟩

/-- The end that is found is the first character at which the scan for operators is outside. -/
theorem closePlaceholder?_iff_openAfter {quote : Option Char} {depth : Nat} {b : List Char}
    (y : List Char) :
    closePlaceholder? quote depth (b ++ '\x7d' :: y) = some (b, y) ↔
      openAfter quote (depth + 1) (b ++ ['\x7d']) = (none, 0) ∧
        ∀ p, p <+: b → openAfter quote (depth + 1) p ≠ (none, 0) := by
  have hnil (quote : Option Char) (depth : Nat) : openAfter quote (depth + 1) [] ≠ (none, 0) := by
    cases quote <;> exact fun heq => Nat.succ_ne_zero depth (congrArg Prod.snd heq)
  induction b generalizing quote depth with
  | nil =>
    by_cases hend : quote = none ∧ '\x7d' = '\x7d' ∧ depth = 0
    · obtain ⟨rfl, -, rfl⟩ := hend
      refine iff_of_true rfl ⟨(scan_end 0 []).2, fun p hp => ?_⟩
      rw [List.prefix_nil.mp hp]
      exact hnil none 0
    · rw [List.nil_append, List.nil_append, closePlaceholder?_cons hend, (scan_cons hend 0 []).2]
      refine iff_of_false (fun hsome => ?_) fun hopen => ?_
      · obtain ⟨_, -, heq⟩ := Option.map_eq_some_iff.mp hsome
        cases heq
      · exact hnil _ _ hopen.1
  | cons c b ih =>
    by_cases hend : quote = none ∧ c = '\x7d' ∧ depth = 0
    · -- The scan stops in front of the end of the body, and so it is outside there.
      obtain ⟨rfl, rfl, rfl⟩ := hend
      refine iff_of_false nofun fun hfirst => ?_
      refine hfirst.2 ['\x7d'] (List.prefix_append ['\x7d'] b) ?_
      exact (scan_end 0 []).2
    · have hbody : closePlaceholder? quote depth (c :: b ++ '\x7d' :: y) = some (c :: b, y) ↔
          closePlaceholder? (passOver quote depth c).1 (passOver quote depth c).2
            (b ++ '\x7d' :: y) = some (b, y) := by
        rw [List.cons_append, closePlaceholder?_cons hend, Option.map_eq_some_iff]
        simp only [Prod.exists, Prod.mk.injEq, List.cons.injEq, true_and, exists_eq_right_right,
          exists_eq_right]
      have hstep (rest : List Char) := (scan_cons hend 0 rest).2
      rw [hbody, List.cons_append, hstep]
      refine ih.trans (and_congr_right fun _ => ⟨fun hall p hp => ?_, fun hall p hp => ?_⟩)
      · rcases List.prefix_cons_iff.mp hp with rfl | ⟨rest, rfl, hrest⟩
        · exact hnil quote depth
        · rw [hstep]
          exact hall rest hrest
      · rw [← hstep]
        exact hall (c :: p) (List.cons_prefix_cons.mpr ⟨rfl, hp⟩)

/-- The scan for operators shows nothing of a body. -/
theorem topLevelFrom_of_closePlaceholder? {quote : Option Char} {depth : Nat} {b y : List Char}
    (h : closePlaceholder? quote depth (b ++ '\x7d' :: y) = some (b, y)) (i : Nat) :
    topLevelFrom quote (depth + 1) i (b ++ '\x7d' :: y) =
      topLevelFrom none 0 (i + b.length + 1) y := by
  induction b generalizing quote depth i with
  | nil =>
    by_cases hend : quote = none ∧ '\x7d' = '\x7d' ∧ depth = 0
    · obtain ⟨rfl, -, rfl⟩ := hend
      exact (scan_end i y).1
    · rw [List.nil_append, closePlaceholder?_cons hend] at h
      obtain ⟨_, -, heq⟩ := Option.map_eq_some_iff.mp h
      cases heq
  | cons c b ih =>
    by_cases hend : quote = none ∧ c = '\x7d' ∧ depth = 0
    · obtain ⟨rfl, rfl, rfl⟩ := hend
      cases h
    · rw [List.cons_append, closePlaceholder?_cons hend] at h
      obtain ⟨⟨body, after⟩, hbody, heq⟩ := Option.map_eq_some_iff.mp h
      cases heq
      rw [List.cons_append, (scan_cons hend i _).1, ih hbody, List.length_cons, Nat.add_assoc i 1,
        Nat.add_comm 1]

/-! ### The ends of placeholders -/

/-- The scan of a text and a placeholder is outside for the first time behind the brace that follows
the body. -/
structure FirstOutside (x b : List Char) : Prop where
  outside : Outside (x ++ placeholder b)
  within : ∀ p, p <+: b → ¬Outside (x ++ (opener ++ p))

theorem outside_opener_append {x : List Char} (hx : Outside x) (text : List Char) :
    Outside (x ++ (opener ++ text)) ↔ openAfter none 1 text = (none, 0) := by
  have hmeet : (opener ++ text).head? ≠ some '\x7b' := by simp [opener]
  have hstand : openAfter none 0 x = (none, 0) := hx
  rw [Outside, (scan_append hmeet none 0 0 x).2, hstand]
  rfl

theorem firstOutside_iff {x : List Char} (hx : Outside x) (b y : List Char) :
    FirstOutside x b ↔ closePlaceholder? none 0 (b ++ '\x7d' :: y) = some (b, y) := by
  have hopen := outside_opener_append hx
  rw [closePlaceholder?_iff_openAfter]
  constructor
  · rintro ⟨hout, hin⟩
    exact ⟨(hopen _).mp hout, fun p hp => mt (hopen p).mpr (hin p hp)⟩
  · rintro ⟨hout, hin⟩
    exact ⟨(hopen _).mpr hout, fun p hp => mt (hopen p).mp (hin p hp)⟩

/-- A body is told by its length. -/
theorem length_of_closePlaceholder?_iff (b y : List Char) :
    (closePlaceholder? none 0 (b ++ '\x7d' :: y)).map (fun parts => parts.1.length) =
        some b.length ↔ closePlaceholder? none 0 (b ++ '\x7d' :: y) = some (b, y) := by
  rw [Option.map_eq_some_iff]
  constructor
  · rintro ⟨⟨body, after⟩, hclose, hlength⟩
    obtain ⟨rfl, hrest⟩ := List.append_inj (passed_of_closePlaceholder? hclose).1 hlength.symm
    cases hrest
    exact hclose
  · intro hclose
    exact ⟨(b, y), hclose, rfl⟩

theorem placeholder_append (b y : List Char) :
    placeholder b ++ y = opener ++ (b ++ '\x7d' :: y) := by
  simp [placeholder]

/-- A placeholder is skipped, and what follows it is scanned as if it stood alone. -/
theorem topLevelFrom_placeholder_append {x b y : List Char} (hx : Outside x)
    (h : closePlaceholder? none 0 (b ++ '\x7d' :: y) = some (b, y)) (i : Nat) :
    topLevelFrom none 0 i (x ++ (placeholder b ++ y)) =
      topLevelFrom none 0 i x ++ topLevelFrom none 0 (i + (x ++ placeholder b).length) y := by
  have hmeet : (opener ++ (b ++ '\x7d' :: y)).head? ≠ some '\x7b' := by simp [opener]
  have hstand : openAfter none 0 x = (none, 0) := hx
  have hlength : (x ++ placeholder b).length = x.length + 2 + b.length + 1 := by
    simp only [placeholder, opener, List.length_append, List.length_cons, List.length_nil]
    omega
  rw [placeholder_append, (scan_append hmeet none 0 i x).1, hstand, opener, List.cons_append,
    List.cons_append, List.nil_append, topLevelFrom, topLevelFrom_of_closePlaceholder? h, hlength]
  simp only [Nat.add_assoc]

/-- Behind a text that closes all its quotations and placeholders, a brace ends a placeholder for
the one scan just if it is the first one behind which the other scan is outside again. Then nothing
of the placeholder is at top level, and what follows it is scanned as if it stood alone. If there is
no opener in front, the body is the one that the template is filled at. -/
theorem closePlaceholder?_iff_firstOutside {x : List Char} (hx : Outside x) (b y : List Char) :
    ((closePlaceholder? none 0 (b ++ '\x7d' :: y)).map (fun parts => parts.1.length) =
      some b.length ↔ FirstOutside x b) ∧
    (FirstOutside x b → topLevel (x ++ (placeholder b ++ y)) = topLevel x ++
      (topLevel y).map (Prod.map ((x ++ placeholder b).length + ·) id)) ∧
    (¬opener <:+: x → (FirstOutside x b ↔ Template.pieces (x ++ (placeholder b ++ y)) =
      .text x :: .placeholder b :: Template.pieces y)) := by
  have hfirst := firstOutside_iff hx b y
  refine ⟨(length_of_closePlaceholder?_iff b y).trans hfirst.symm, fun hout => ?_, fun hplain => ?_⟩
  · rw [topLevel, topLevelFrom_placeholder_append hx (hfirst.mp hout), topLevel, topLevel,
      ← topLevelFrom_add, Nat.zero_add]
    rfl
  · rw [hfirst, placeholder_append, Template.pieces_of_cut? (Text.cut?_opener _ hplain)]
    constructor
    · intro hclose
      rw [hclose]
    · intro hpieces
      split at hpieces
      · exact absurd (List.cons.inj hpieces).2.symm (List.cons_ne_nil _ _)
      · next body after hclose =>
        have hbody : body = b :=
          Template.Piece.placeholder.inj (List.cons.inj (List.cons.inj hpieces).2).1
        rw [← length_of_closePlaceholder?_iff, hclose, ← hbody]
        rfl

/-- A text with a placeholder and with an opener in quotation marks. -/
def lead : List Char := "a$\x7bb\x7d '$\x7b' - ".toList

/-- Quotations with openers and braces, in a body, and braces outside of them do no harm; a brace in
a quotation does not end the placeholder. -/
theorem closePlaceholder?_iff_firstOutside_lead :
    Outside lead ∧ FirstOutside lead "f(\x7b'\x7d'\x7d, \"$\x7b\")".toList ∧
      ¬FirstOutside lead "f(\x7b'".toList := by
  have hlead : Outside lead := by decide +kernel
  have hfound := closePlaceholder?_iff_firstOutside hlead
    "f(\x7b'\x7d'\x7d, \"$\x7b\")".toList " ? 1 : 2".toList
  have hother := closePlaceholder?_iff_firstOutside hlead
    "f(\x7b'".toList "'\x7d, \"$\x7b\")\x7d".toList
  exact ⟨hlead, hfound.1.mp (by decide +kernel),
    fun h => absurd (hother.1.mpr h) (by decide +kernel)⟩

end Expr

/-! ### Templates and top levels -/

namespace Template

open ScreenDoc.Expr (topLevelFrom Outside)

/-- What is outside of quotations and placeholders in a template with these pieces, which begins at
a position. -/
def exposedFrom : Nat → List Piece → List (Nat × Char)
  | _, [] => []
  | i, .text chars :: rest => topLevelFrom none 0 i chars ++ exposedFrom (i + chars.length) rest
  | i, .placeholder body :: rest => exposedFrom (i + (placeholder body).length) rest

/-- If all texts between the placeholders that a template is filled at close their quotations, just
these placeholders are skipped in the search for operators. -/
theorem topLevelFrom_eq_exposedFrom {template : List Char}
    (h : ∀ chars, .text chars ∈ pieces template → Outside chars) (i : Nat) :
    topLevelFrom none 0 i template = exposedFrom i (pieces template) := by
  fun_induction pieces template generalizing i with
  | case1 template => simp [exposedFrom]
  | case2 template before rest hcut hclose => simp [exposedFrom]
  | case3 template before rest hcut body after hclose ih =>
    obtain rfl := Text.eq_append_of_cut? hcut
    obtain ⟨rfl, -⟩ := Expr.passed_of_closePlaceholder? hclose
    rw [← Expr.placeholder_append,
      Expr.topLevelFrom_placeholder_append (h before List.mem_cons_self) hclose,
      ih fun chars hchars => h chars (List.mem_cons_of_mem _ (List.mem_cons_of_mem _ hchars)),
      exposedFrom, exposedFrom, List.length_append, Nat.add_assoc]

end Template

end ScreenDoc
