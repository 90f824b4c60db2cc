import Mathlib.Data.List.Basic

/-!
# Lines

The lines of a sequence are what its separators split it into.  A last line need not be
terminated, and a separator at the very end does not open another one.
-/

namespace CatDect.Support

variable {α : Type*} [DecidableEq α] {sep : α} {line rest content : List α}

def linesOf (sep : α) (content : List α) : List (List α) :=
  let pieces := content.splitOn sep
  if pieces.getLast? = some [] then pieces.dropLast else pieces

@[simp] theorem linesOf_nil (sep : α) : linesOf sep [] = [] := rfl

theorem linesOf_terminated (h : sep ∉ line) (rest : List α) :
    linesOf sep (line ++ sep :: rest) = line :: linesOf sep rest := by
  have hne : rest.splitOn sep ≠ [] := List.splitOn_ne_nil sep rest
  unfold linesOf
  rw [List.splitOn_append_cons_self_of_not_mem h]
  dsimp only
  have hlast : (line :: rest.splitOn sep).getLast? = (rest.splitOn sep).getLast? := by
    rw [← List.singleton_append, List.getLast?_append_of_ne_nil _ hne]
  rw [hlast, List.dropLast_cons_of_ne_nil hne]
  split
  · rfl
  · rfl

theorem linesOf_last (h : sep ∉ line) (hne : line ≠ []) : linesOf sep line = [line] := by
  unfold linesOf
  rw [List.splitOn_eq_singleton h]
  exact if_neg fun hlast => hne (Option.some.inj hlast)

/-- Induction on the lines: nothing, a line that is not terminated, or a line and the rest. -/
theorem lines_induction (sep : α) {motive : List α → Prop} (nil : motive [])
    (last : ∀ line, sep ∉ line → line ≠ [] → motive line)
    (terminated : ∀ line rest, sep ∉ line → motive rest → motive (line ++ sep :: rest))
    (content : List α) : motive content := by
  induction hlength : content.length using Nat.strongRecOn generalizing content with
  | _ n ih =>
      by_cases hsep : sep ∈ content
      · obtain ⟨line, rest, hsplit, hline⟩ := List.eq_append_cons_of_mem hsep
        subst hsplit
        apply terminated line rest hline
        apply ih rest.length _ rest rfl
        rw [← hlength, List.length_append, List.length_cons]
        omega
      · by_cases hnil : content = []
        · rw [hnil]
          exact nil
        · exact last content hsep hnil

theorem mem_of_mem_linesOf {a : α} (hmem : line ∈ linesOf sep content) (ha : a ∈ line) :
    a ∈ content := by
  induction content using lines_induction sep with
  | nil => exact absurd hmem List.not_mem_nil
  | last content hsep hne =>
      rw [linesOf_last hsep hne] at hmem
      exact List.mem_singleton.mp hmem ▸ ha
  | terminated first rest hsep ih =>
      rw [linesOf_terminated hsep] at hmem
      rcases List.mem_cons.mp hmem with heq | hmem
      · exact List.mem_append_left _ (heq ▸ ha)
      · exact List.mem_append_right _ (List.mem_cons_of_mem _ (ih hmem))

end CatDect.Support
