import CatDect.Support.Interleaving

/-!
# Fair runs

An endless schedule names the process that takes each step; it is fair if every process is
scheduled again and again.  `eventually_of_variant` is the rule for what must happen in a
fair run: a number that no step raises and that the steps of one process lower.
-/

namespace CatDect.Support

variable {σ π : Type*} {step : σ → π → σ} {s : σ} {sched : ℕ → π} {n m : ℕ}

def firstSteps (sched : ℕ → π) (n : ℕ) : List π := (List.range n).map sched

def Fair (sched : ℕ → π) : Prop := ∀ p n, ∃ m, n ≤ m ∧ sched m = p

theorem firstSteps_succ (sched : ℕ → π) (n : ℕ) :
    firstSteps sched (n + 1) = firstSteps sched n ++ [sched n] := by
  unfold firstSteps
  rw [List.range_succ, List.map_append, List.map_singleton]

theorem run_firstSteps_succ (n : ℕ) :
    run step s (firstSteps sched (n + 1)) = step (run step s (firstSteps sched n)) (sched n) := by
  rw [firstSteps_succ, run_append_singleton]

theorem kept_from {I : σ → Prop} (hstep : ∀ s p, I s → I (step s p))
    (hn : I (run step s (firstSteps sched n))) (hnm : n ≤ m) :
    I (run step s (firstSteps sched m)) := by
  induction m, hnm using Nat.le_induction with
  | base => exact hn
  | succ m _ ih =>
      rw [run_firstSteps_succ]
      exact hstep _ _ ih

section Variant

variable {I Q : σ → Prop} {variant : σ → ℕ} {p : π}

theorem variant_le
    (hkeep : ∀ s q, I s → ¬ Q s →
      I (step s q) ∧ (¬ Q (step s q) → variant (step s q) ≤ variant s))
    (hn : I (run step s (firstSteps sched n))) (hnm : n ≤ m)
    (hnever : ∀ k, n ≤ k → ¬ Q (run step s (firstSteps sched k))) :
    I (run step s (firstSteps sched m)) ∧
      variant (run step s (firstSteps sched m)) ≤ variant (run step s (firstSteps sched n)) := by
  induction m, hnm using Nat.le_induction with
  | base => exact ⟨hn, Nat.le_refl _⟩
  | succ m hm ih =>
      have hlast := hkeep _ (sched m) ih.1 (hnever m hm)
      have hnext := hnever (m + 1) (by omega)
      rw [run_firstSteps_succ] at hnext ⊢
      exact ⟨hlast.1, (hlast.2 hnext).trans ih.2⟩

/-- If every step keeps `I` and does not raise the variant, and a step of `p` lowers it,
all of it until `Q` holds, then in a fair run `Q` holds at some time. -/
theorem eventually_of_variant (I Q : σ → Prop) (variant : σ → ℕ) (p : π) (hfair : Fair sched)
    (hkeep : ∀ s q, I s → ¬ Q s →
      I (step s q) ∧ (¬ Q (step s q) → variant (step s q) ≤ variant s))
    (hlower : ∀ s, I s → ¬ Q s → Q (step s p) ∨ variant (step s p) < variant s)
    (hn : I (run step s (firstSteps sched n))) :
    ∃ m, n ≤ m ∧ Q (run step s (firstSteps sched m)) := by
  induction hv : variant (run step s (firstSteps sched n)) using Nat.strong_induction_on
    generalizing n with
  | _ v ih =>
      by_contra hnone
      have hnever : ∀ k, n ≤ k → ¬ Q (run step s (firstSteps sched k)) :=
        fun k hk hQ => hnone ⟨k, hk, hQ⟩
      obtain ⟨m, hnm, hm⟩ := hfair p n
      have hbefore := variant_le hkeep hn hnm hnever
      have hinv := (hkeep _ p hbefore.1 (hnever m hnm)).1
      have hstep : run step s (firstSteps sched (m + 1)) =
          step (run step s (firstSteps sched m)) p := by
        rw [run_firstSteps_succ, hm]
      rcases hlower _ hbefore.1 (hnever m hnm) with hQ | hlt
      · exact hnever (m + 1) (by omega) (hstep ▸ hQ)
      · rw [← hstep] at hinv hlt
        obtain ⟨k, hk, hQ⟩ := ih _ (by omega) hinv rfl
        exact hnever k (by omega) hQ

end Variant

/-- A number that no step lowers and that is always exceeded in the end grows beyond bounds. -/
theorem unbounded_of_exceeded (count : σ → ℕ) {n : ℕ}
    (hexceed : ∀ m, n ≤ m → ∃ k, m ≤ k ∧
      count (run step s (firstSteps sched m)) < count (run step s (firstSteps sched k)))
    (bound : ℕ) : ∃ m, n ≤ m ∧ bound ≤ count (run step s (firstSteps sched m)) := by
  induction bound with
  | zero => exact ⟨n, Nat.le_refl n, Nat.zero_le _⟩
  | succ bound ih =>
      obtain ⟨m, hnm, hm⟩ := ih
      obtain ⟨k, hmk, hk⟩ := hexceed m hnm
      exact ⟨k, hnm.trans hmk, by omega⟩

end CatDect.Support
