import CatDect.Support.Loops
import Mathlib.Order.Lattice
import Mathlib.Order.Monotone.Defs

/-!
# The first position of the largest value

A class loop keeps a best value and replaces it only by a strictly larger one, so among
equal values it returns the first.  `IsFirstMax` says this without a loop; it determines
the position, and it does not change under a strictly increasing conversion of the values.
-/

namespace CatDect.Support

variable {α β : Type} [LinearOrder α] [LinearOrder β] {f : ℕ → α} {n k : ℕ}

/-- Of the values below `n` the one at `k` is the largest, and the first of that size. -/
structure IsFirstMax (f : ℕ → α) (n k : ℕ) : Prop where
  lt : k < n
  le : ∀ j < n, f j ≤ f k
  first : ∀ j < k, f j < f k

def firstMax (f : ℕ → α) : ℕ → ℕ
  | 0 => 0
  | n + 1 => if f (firstMax f n) < f n then n else firstMax f n

theorem isFirstMax_one (f : ℕ → α) : IsFirstMax f 1 0 where
  lt := Nat.one_pos
  le := by
    intro j hj
    rw [Nat.lt_one_iff.mp hj]
  first := fun j hj => absurd hj (Nat.not_lt_zero j)

theorem IsFirstMax.succ (h : IsFirstMax f n k) :
    IsFirstMax f (n + 1) (if f k < f n then n else k) := by
  by_cases hlt : f k < f n
  · rw [if_pos hlt]
    refine ⟨Nat.lt_succ_self n, ?_, fun j hj => (h.le j hj).trans_lt hlt⟩
    intro j hj
    rcases Nat.lt_succ_iff_lt_or_eq.mp hj with hj | rfl
    · exact ((h.le j hj).trans_lt hlt).le
    · exact le_rfl
  · rw [if_neg hlt]
    refine ⟨h.lt.trans (Nat.lt_succ_self n), ?_, h.first⟩
    intro j hj
    rcases Nat.lt_succ_iff_lt_or_eq.mp hj with hj | rfl
    · exact h.le j hj
    · exact not_lt.mp hlt

theorem firstMax_spec (f : ℕ → α) {n : ℕ} (hn : 0 < n) : IsFirstMax f n (firstMax f n) := by
  induction n with
  | zero => exact absurd hn (Nat.lt_irrefl 0)
  | succ n ih =>
      rcases Nat.eq_zero_or_pos n with rfl | hpos
      · rw [firstMax, firstMax, if_neg (lt_irrefl _)]
        exact isFirstMax_one f
      · exact (ih hpos).succ

theorem IsFirstMax.eq {k' : ℕ} (h : IsFirstMax f n k) (h' : IsFirstMax f n k') : k = k' := by
  rcases Nat.lt_trichotomy k k' with hlt | heq | hlt
  · exact absurd (h.le k' h'.lt) (not_le.mpr (h'.first k hlt))
  · exact heq
  · exact absurd (h'.le k h.lt) (not_le.mpr (h.first k' hlt))

theorem foldlM_firstMax {step : α × ℕ → ℕ → Option (α × ℕ)} (hn : 0 < n)
    (hstep : ∀ k < n, ∀ best, step best k = some (if f k > best.1 then (f k, k) else best)) :
    (List.range' 1 (n - 1)).foldlM step (f 0, 0) = some (f (firstMax f n), firstMax f n) := by
  obtain ⟨best, hbest, hmax, hvalue⟩ := foldlM_range_rule 1 (n - 1) (f := step) (s := (f 0, 0))
    (fun i best => IsFirstMax f i best.2 ∧ best.1 = f best.2) ⟨isFirstMax_one f, rfl⟩ (by
      rintro i ⟨value, k⟩ - hi ⟨hmax, hvalue⟩
      dsimp only at hmax hvalue
      refine ⟨_, hstep i (by omega) (value, k), ?_⟩
      have hnext := hmax.succ
      rw [← hvalue] at hnext
      by_cases hlt : value < f i
      · rw [if_pos hlt] at *
        exact ⟨hnext, rfl⟩
      · rw [if_neg hlt] at *
        exact ⟨hnext, hvalue⟩)
  rw [Nat.add_sub_cancel' hn] at hmax
  rw [← hmax.eq (firstMax_spec f hn), ← hvalue]
  exact hbest

theorem IsFirstMax.comp_strictMono {g : α → β} (hg : StrictMono g) (h : IsFirstMax f n k) :
    IsFirstMax (fun j => g (f j)) n k where
  lt := h.lt
  le := fun j hj => hg.monotone (h.le j hj)
  first := fun j hj => hg (h.first j hj)

end CatDect.Support
