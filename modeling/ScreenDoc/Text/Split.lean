/-!
# Cutting texts

## Main definitions

- `Text.cut?` — a text around the first occurrence of a pattern
- `Text.includes` — whether a pattern occurs in a text
- `Text.withoutEnd?` — a text without a given ending
-/

namespace ScreenDoc

namespace Text

/-- The parts of a text before and after the first occurrence of a pattern. -/
def cut? (pattern : List Char) : List Char → Option (List Char × List Char)
  | [] => if pattern.isEmpty then some ([], []) else none
  | c :: rest =>
    if pattern.isPrefixOf (c :: rest) then some ([], (c :: rest).drop pattern.length)
    else (cut? pattern rest).map fun (before, after) => (c :: before, after)

/-- Whether a pattern occurs in a text. -/
def includes (pattern text : List Char) : Bool :=
  (cut? pattern text).isSome

/-- A text without an ending, if it has that ending. -/
def withoutEnd? (ending text : List Char) : Option (List Char) :=
  if ending.isSuffixOf text then some (text.take (text.length - ending.length)) else none

theorem cut?_length {pattern text before after : List Char}
    (h : cut? pattern text = some (before, after)) :
    before.length + pattern.length + after.length = text.length := by
  induction text generalizing before with
  | nil =>
    unfold cut? at h
    split at h
    · next hp =>
      simp only [Option.some.injEq, Prod.mk.injEq] at h
      obtain ⟨rfl, rfl⟩ := h
      simpa using hp
    · cases h
  | cons c rest ih =>
    unfold cut? at h
    split at h
    · next hp =>
      simp only [Option.some.injEq, Prod.mk.injEq] at h
      obtain ⟨rfl, rfl⟩ := h
      have hle := (List.isPrefixOf_iff_prefix.1 hp).length_le
      rw [List.length_drop, List.length_nil]
      omega
    · rw [Option.map_eq_some_iff] at h
      obtain ⟨⟨b, a⟩, hcut, heq⟩ := h
      simp only [Prod.mk.injEq] at heq
      obtain ⟨rfl, rfl⟩ := heq
      have := ih hcut
      simp only [List.length_cons]
      omega

end Text

end ScreenDoc
