import Mathlib.Data.List.Nodup

/-!
# Histories

What is left of a history of calls, of which some make things and some undo what others made, and
lists without repetitions, as they are left when what was made twice counts once.

## Main definitions

- `survivors` — what the calls of a history made and no later call undoes, in order

## Main results

- `survivors_append_singleton` — one more call
- `EraseDups.filter_eraseDups`, `EraseDups.eraseDups_map_eraseDups` — removing repetitions before or
  after a test or a map
-/

namespace ScreenDoc

/-! ### What is left of a history -/

section Survivors

variable {α γ : Type} (made? : γ → Option α) (undoes : α → γ → Bool)

/-- What the calls of a history made and no later call undoes, in order. -/
def survivors : List γ → List α
  | [] => []
  | call :: later =>
    match made? call with
    | none => survivors later
    | some a => if later.any (undoes a) then survivors later else a :: survivors later

/-- A call leaves what it does not undo, and what it makes is there at first. -/
theorem survivors_append_singleton (calls : List γ) (call : γ) :
    survivors made? undoes (calls ++ [call]) =
      ((survivors made? undoes calls).filter fun a => !undoes a call) ++ (made? call).toList := by
  induction calls with
  | nil =>
    rw [List.nil_append, survivors, survivors]
    cases made? call <;> rfl
  | cons first later ih =>
    rw [List.cons_append, survivors, survivors]
    cases made? first with
    | none => exact ih
    | some a =>
      simp only [List.any_append, List.any_cons, List.any_nil, Bool.or_false]
      cases later.any (undoes a) with
      | true => exact ih
      | false =>
        cases hcall : undoes a call with
        | true =>
          rw [if_neg Bool.false_ne_true, List.filter_cons_of_neg (by simp [hcall])]
          exact ih
        | false =>
          rw [if_neg Bool.false_ne_true, List.filter_cons_of_pos (by simp [hcall]), ih]
          rfl

theorem survivors_sublist (calls : List γ) :
    (survivors made? undoes calls).Sublist (calls.filterMap made?) := by
  induction calls with
  | nil => exact .slnil
  | cons first later ih =>
    rw [survivors, List.filterMap_cons]
    cases made? first with
    | none => exact ih
    | some a =>
      simp only
      split
      · exact ih.cons a
      · exact ih.cons_cons a

end Survivors

/-! ### Lists without repetitions -/

namespace EraseDups

variable {α β : Type} [DecidableEq α] [DecidableEq β]

/-- Removing repetitions keeps what passes a test. -/
theorem filter_eraseDups (keep : α → Bool) (l : List α) :
    l.eraseDups.filter keep = (l.filter keep).eraseDups := by
  match l with
  | [] => rfl
  | a :: rest =>
    have ih := filter_eraseDups keep (rest.filter fun b => !b == a)
    have hcomm : (rest.filter fun b => !b == a).filter keep =
        (rest.filter keep).filter fun b => !b == a := by
      rw [List.filter_filter, List.filter_filter]
      exact List.filter_congr fun b _ => Bool.and_comm _ _
    rw [hcomm] at ih
    rw [List.eraseDups_cons]
    cases hkeep : keep a with
    | true =>
      rw [List.filter_cons_of_pos hkeep, List.filter_cons_of_pos hkeep, List.eraseDups_cons, ih]
    | false =>
      -- Nothing equal to the first one is left after the test.
      have hself : (rest.filter keep).filter (fun b => !b == a) = rest.filter keep := by
        refine List.filter_eq_self.mpr fun b hb => ?_
        have hne : b ≠ a := fun heq => by
          rw [heq, List.mem_filter, hkeep] at hb
          exact Bool.false_ne_true hb.2
        simpa using hne
      rw [List.filter_cons_of_neg (by simp [hkeep]), List.filter_cons_of_neg (by simp [hkeep]), ih,
        hself]
termination_by l.length
decreasing_by exact Nat.lt_succ_of_le (List.length_filter_le _ _)

/-- Repetitions may be removed before a map as well. -/
theorem eraseDups_map_eraseDups (f : α → β) (l : List α) :
    (l.eraseDups.map f).eraseDups = (l.map f).eraseDups := by
  match l with
  | [] => rfl
  | a :: rest =>
    have ih := eraseDups_map_eraseDups f (rest.filter fun b => !b == a)
    have hdrop : ((rest.filter fun b => !b == a).map f).filter (fun c => !c == f a) =
        (rest.map f).filter fun c => !c == f a := by
      rw [List.filter_map, List.filter_map, List.filter_filter]
      congr 1
      refine List.filter_congr fun b _ => ?_
      by_cases hb : b = a
      · simp [hb]
      · simp [hb]
    rw [List.eraseDups_cons, List.map_cons, List.map_cons, List.eraseDups_cons,
      List.eraseDups_cons, ← filter_eraseDups, ih, filter_eraseDups, hdrop]
termination_by l.length
decreasing_by exact Nat.lt_succ_of_le (List.length_filter_le _ _)

theorem nodup (l : List α) : l.eraseDups.Nodup := by
  match l with
  | [] => exact List.nodup_nil
  | a :: rest =>
    rw [List.eraseDups_cons, List.nodup_cons, List.mem_eraseDups]
    exact ⟨by simp, nodup _⟩
termination_by l.length
decreasing_by exact Nat.lt_succ_of_le (List.length_filter_le _ _)

theorem eraseDups_eq_self {l : List α} (h : l.Nodup) : l.eraseDups = l := by
  induction l with
  | nil => rfl
  | cons a rest ih =>
    obtain ⟨ha, hrest⟩ := List.nodup_cons.mp h
    have hself : rest.filter (fun b => !b == a) = rest := by
      refine List.filter_eq_self.mpr fun b hb => ?_
      have hne : b ≠ a := fun heq => ha (heq ▸ hb)
      simpa using hne
    rw [List.eraseDups_cons, hself, ih hrest]

/-- One more element is added unless it is there. -/
theorem eraseDups_append_singleton (l : List α) (a : α) :
    (l ++ [a]).eraseDups = if a ∈ l then l.eraseDups else l.eraseDups ++ [a] := by
  rw [List.eraseDups_append]
  by_cases ha : a ∈ l
  · rw [if_pos ha, show [a].removeAll l = [] by simp [List.removeAll, ha]]
    exact List.append_nil _
  · rw [if_neg ha, show [a].removeAll l = [a] by simp [List.removeAll, ha]]
    rfl

end EraseDups

end ScreenDoc
