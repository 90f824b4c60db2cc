import Mathlib.Data.Nat.Count
import Mathlib.Data.List.Range
import Mathlib.Data.List.Sort

/-!
# The first so many members of a predicate

`firstRanks S n cap` lists the smallest `cap` numbers below `n` that satisfy `S`:
what a loop keeps that scans `0 .. n` and stops keeping after `cap` hits.
-/

namespace CatDect.Support

section

variable (S : ℕ → Prop) [DecidablePred S]

/-- The first `cap` of the numbers below `n` that satisfy `S`. -/
def firstRanks (n cap : ℕ) : List ℕ := ((List.range n).filter fun i => S i).take cap

theorem filter_range_length (n : ℕ) :
    ((List.range n).filter fun i => S i).length = Nat.count S n := by
  rw [Nat.count_eq_card_filter_range]
  rfl

variable {S}

theorem filter_range_succ (n : ℕ) :
    (List.range (n + 1)).filter (fun i => S i) =
      (List.range n).filter (fun i => S i) ++ (if S n then [n] else []) := by
  rw [List.range_succ, List.filter_append]
  congr 1
  by_cases h : S n <;> simp [h]

theorem firstRanks_succ_of_not {n cap : ℕ} (h : ¬ S n) :
    firstRanks S (n + 1) cap = firstRanks S n cap := by
  rw [firstRanks, filter_range_succ, if_neg h, List.append_nil, firstRanks]

theorem firstRanks_succ_of_full {n cap : ℕ} (h : cap ≤ Nat.count S n) :
    firstRanks S (n + 1) cap = firstRanks S n cap := by
  rw [firstRanks, filter_range_succ, List.take_append_of_le_length, firstRanks]
  rw [filter_range_length]
  exact h

theorem firstRanks_succ {n cap : ℕ} (hS : S n) (h : Nat.count S n < cap) :
    firstRanks S (n + 1) cap = firstRanks S n cap ++ [n] := by
  have hlen := filter_range_length S n
  rw [firstRanks, filter_range_succ, if_pos hS, firstRanks,
    List.take_of_length_le (by rw [List.length_append, hlen]; exact h),
    List.take_of_length_le (by omega)]

theorem firstRanks_length (n cap : ℕ) :
    (firstRanks S n cap).length = min cap (Nat.count S n) := by
  rw [firstRanks, List.length_take, filter_range_length]

theorem lt_and_iff_of_not {P : ℕ → Prop} {n : ℕ} (h : ¬ P n) (j : ℕ) :
    j < n ∧ P j ↔ j < n + 1 ∧ P j := by
  constructor
  · exact fun hj => ⟨by omega, hj.2⟩
  · rintro ⟨hlt, hP⟩
    have hne : j ≠ n := fun heq => h (heq ▸ hP)
    exact ⟨by omega, hP⟩

theorem mem_firstRanks {n cap j : ℕ} :
    j ∈ firstRanks S n cap ↔ j < n ∧ S j ∧ Nat.count S j < cap := by
  induction n with
  | zero => simp [firstRanks]
  | succ n ih =>
      by_cases hS : S n
      · by_cases hfull : Nat.count S n < cap
        · rw [firstRanks_succ hS hfull, List.mem_append, ih, List.mem_singleton]
          constructor
          · rintro (⟨h1, h2⟩ | rfl)
            · exact ⟨by omega, h2⟩
            · exact ⟨by omega, hS, hfull⟩
          · rintro ⟨h1, h2⟩
            rcases Nat.lt_succ_iff_lt_or_eq.mp h1 with hlt | heq
            · exact .inl ⟨hlt, h2⟩
            · exact .inr heq
        · rw [firstRanks_succ_of_full (not_lt.mp hfull), ih]
          exact lt_and_iff_of_not (P := fun j => S j ∧ Nat.count S j < cap)
            (fun h => hfull h.2) j
      · rw [firstRanks_succ_of_not hS, ih]
        exact lt_and_iff_of_not (P := fun j => S j ∧ Nat.count S j < cap) (fun h => hS h.1) j

theorem firstRanks_sublist (n cap : ℕ) : (firstRanks S n cap).Sublist (List.range n) :=
  (List.take_sublist _ _).trans List.filter_sublist

theorem firstRanks_sorted (n cap : ℕ) : (firstRanks S n cap).Pairwise (· < ·) :=
  List.pairwise_lt_range.sublist (firstRanks_sublist n cap)

theorem firstRanks_nodup (n cap : ℕ) : (firstRanks S n cap).Nodup :=
  List.nodup_range.sublist (firstRanks_sublist n cap)

end

/-- Two predicates have the same first members exactly if they agree wherever neither
has filled the cap yet. -/
theorem firstRanks_eq_iff {S T : ℕ → Prop} [DecidablePred S] [DecidablePred T] {n cap : ℕ} :
    firstRanks S n cap = firstRanks T n cap ↔
      ∀ j < n, Nat.count S j < cap → Nat.count T j < cap → (S j ↔ T j) := by
  constructor
  · intro heq j hj hcS hcT
    constructor
    · intro hS
      exact (mem_firstRanks.mp (heq ▸ mem_firstRanks.mpr ⟨hj, hS, hcS⟩)).2.1
    · intro hT
      exact (mem_firstRanks.mp (heq ▸ mem_firstRanks.mpr ⟨hj, hT, hcT⟩)).2.1
  · intro hagree
    -- until one of the caps is filled, both predicates have been met equally often
    have hcount : ∀ j ≤ n, Nat.count S j < cap ∨ Nat.count T j < cap →
        Nat.count S j = Nat.count T j := by
      intro j
      induction j with
      | zero => intro _ _; rw [Nat.count_zero, Nat.count_zero]
      | succ j ih =>
          intro hj hcap
          have hS := Nat.count_monotone S (Nat.le_add_right j 1)
          have hT := Nat.count_monotone T (Nat.le_add_right j 1)
          have heq := ih (by omega) (by omega)
          have hiff := hagree j (by omega) (by omega) (by omega)
          rw [Nat.count_succ, Nat.count_succ, heq]
          by_cases h : S j
          · rw [if_pos h, if_pos (hiff.mp h)]
          · rw [if_neg h, if_neg fun hT => h (hiff.mpr hT)]
    apply (firstRanks_sorted n cap).eq_of_mem_iff (firstRanks_sorted n cap)
    intro j
    rw [mem_firstRanks, mem_firstRanks]
    constructor
    · rintro ⟨hj, hS, hc⟩
      have heq := hcount j hj.le (.inl hc)
      exact ⟨hj, (hagree j hj hc (heq ▸ hc)).mp hS, heq ▸ hc⟩
    · rintro ⟨hj, hT, hc⟩
      have heq := hcount j hj.le (.inr hc)
      exact ⟨hj, (hagree j hj (heq ▸ hc) hc).mpr hT, heq ▸ hc⟩

end CatDect.Support
