import Mathlib.Order.RelClasses
import Mathlib.Order.WellFounded

/-!
# Kernels of a relation and turn-based suppression

A *kernel* of a relation `R` on a well-founded order contains exactly the
elements that no smaller element of the kernel is related to: the greedy
selection that goes through the order from below.

The second half is about elements that take turns.  An element that is still
standing when its turn comes strikes down every larger element it is related to,
including those that had their turn already.  `Effective` are the elements that
are standing at their turn and `Standing` those left at the end; the two
theorems compare `Standing` with a kernel and with the outcome of another order
of turns.
-/

namespace CatDect.Support

variable {α : Type*} [Preorder α] [WellFoundedLT α]

def Kernel (R : α → α → Prop) : α → Prop :=
  (wellFounded_lt (α := α)).fix fun j kernelBelow => ∀ i, (h : i < j) → R i j → ¬ kernelBelow i h

theorem kernel_iff {R : α → α → Prop} {j : α} :
    Kernel R j ↔ ∀ i, i < j → R i j → ¬ Kernel R i := by
  unfold Kernel
  rw [WellFounded.fix_eq]

theorem not_kernel_iff {R : α → α → Prop} {j : α} :
    ¬ Kernel R j ↔ ∃ i, i < j ∧ R i j ∧ Kernel R i := by
  rw [kernel_iff]
  push Not
  rfl

theorem kernel_congr {R R' : α → α → Prop} {D : α → Prop} (hD : ∀ i j, i < j → D j → D i)
    (hR : ∀ i j, i < j → D j → (R i j ↔ R' i j)) : ∀ j, D j → (Kernel R j ↔ Kernel R' j) := by
  intro j
  induction j using WellFoundedLT.induction with
  | ind j ih =>
      intro hj
      rw [kernel_iff, kernel_iff]
      apply forall_congr'
      intro i
      apply forall_congr'
      intro hij
      exact imp_congr (hR i j hij hj) (not_congr (ih i hij (hD i j hij hj)))

/-! ## Suppression by turns -/

section Turns

variable (turn hits : α → α → Prop)

/-- `i` is standing when its turn comes: no smaller element with an earlier turn
that was itself standing then hits it. -/
def Effective : α → Prop := Kernel fun i j => turn i j ∧ hits i j

/-- `j` is standing after all turns. -/
def Standing (j : α) : Prop := ∀ i, i < j → hits i j → ¬ Effective turn hits i

variable {turn hits}

theorem effective_iff {j : α} :
    Effective turn hits j ↔
      ∀ i, i < j → turn i j → hits i j → ¬ Effective turn hits i := by
  unfold Effective
  rw [kernel_iff]
  constructor
  · exact fun h i hij ht hh => h i hij ⟨ht, hh⟩
  · exact fun h i hij hth => h i hij hth.1 hth.2

theorem Standing.effective {j : α} (h : Standing turn hits j) : Effective turn hits j :=
  effective_iff.mpr fun i hij _ hh => h i hij hh

theorem not_standing_iff {j : α} :
    ¬ Standing turn hits j ↔ ∃ i, i < j ∧ hits i j ∧ Effective turn hits i := by
  unfold Standing
  push Not
  rfl

theorem standing_congr {hits' : α → α → Prop} {D : α → Prop} (hD : ∀ i j, i < j → D j → D i)
    (hhits : ∀ i j, i < j → D j → (hits i j ↔ hits' i j)) {j : α} (hj : D j) :
    Standing turn hits j ↔ Standing turn hits' j := by
  unfold Standing
  apply forall_congr'
  intro i
  apply forall_congr'
  intro hij
  apply imp_congr (hhits i j hij hj)
  apply not_congr
  apply kernel_congr hD _ i (hD i j hij hj)
  intro k l hkl hl
  exact and_congr_right fun _ => hhits k l hkl hl

theorem Standing.not_hits {i j : α} (hij : i < j) (hi : Standing turn hits i)
    (hj : Standing turn hits j) : ¬ hits i j :=
  fun hh => hj i hij hh hi.effective

/-- If every element struck down has a standing, smaller element of its own group that
hits it, the standing elements are the greedy selection made group by group. -/
theorem standing_iff_kernel_of_complete {D : α → Prop} (hD : ∀ i j, i < j → D j → D i)
    {same : α → α → Prop}
    (hcomplete : ∀ j, D j → ¬ Standing turn hits j →
      ∃ i, i < j ∧ same i j ∧ Standing turn hits i ∧ hits i j) :
    ∀ j, D j → (Standing turn hits j ↔ Kernel (fun i j => same i j ∧ hits i j) j) := by
  intro j
  induction j using WellFoundedLT.induction with
  | ind j ih =>
      intro hj
      constructor
      · intro hstand
        apply kernel_iff.mpr
        intro i hij hsh hker
        have hi := (ih i hij (hD i j hij hj)).mpr hker
        exact Standing.not_hits hij hi hstand hsh.2
      · intro hker
        by_contra hdown
        obtain ⟨i, hij, hs, hi, hh⟩ := hcomplete j hj hdown
        exact kernel_iff.mp hker i hij ⟨hs, hh⟩ ((ih i hij (hD i j hij hj)).mp hi)

/-- Every element struck down has a standing, smaller element of its own group that
hits it, exactly if no effective element hits a larger member of the greedy
selection made group by group. -/
theorem complete_iff {D : α → Prop} (hD : ∀ i j, i < j → D j → D i) {same : α → α → Prop} :
    (∀ j, D j → ¬ Standing turn hits j →
        ∃ i, i < j ∧ same i j ∧ Standing turn hits i ∧ hits i j) ↔
      ∀ i j, i < j → D j → hits i j → Kernel (fun i j => same i j ∧ hits i j) j →
        ¬ Effective turn hits i := by
  constructor
  · intro hcomplete i j hij hj hh hker
    exact (standing_iff_kernel_of_complete hD hcomplete j hj).mpr hker i hij hh
  · intro hsafe j hj hdown
    have hker : ¬ Kernel (fun i j => same i j ∧ hits i j) j := fun hker =>
      hdown fun i hij hh => hsafe i j hij hj hh hker
    obtain ⟨i, hij, hsh, hi⟩ := not_kernel_iff.mp hker
    exact ⟨i, hij, hsh.1, fun k hki hh => hsafe k i hki (hD i j hij hj) hh hi, hsh.2⟩

/-- Two orders of turns leave the same elements standing exactly if an element that is
effective in only one of them strikes down nobody who would stand in the other. -/
theorem standing_iff_standing (turn turn' hits : α → α → Prop) {D : α → Prop} :
    (∀ j, D j → (Standing turn hits j ↔ Standing turn' hits j)) ↔
      ∀ i j, i < j → D j → hits i j →
        (Effective turn' hits i → ¬ Effective turn hits i → ¬ Standing turn hits j) ∧
        (Effective turn hits i → ¬ Effective turn' hits i → ¬ Standing turn' hits j) := by
  constructor
  · intro hsame i j hij hj hh
    refine ⟨fun hi' _ hstand => ?_, fun hi _ hstand => ?_⟩
    · exact (hsame j hj).mp hstand i hij hh hi'
    · exact (hsame j hj).mpr hstand i hij hh hi
  · intro hboth j hj
    constructor
    · intro hstand i hij hh hi'
      exact (hboth i j hij hj hh).1 hi' (hstand i hij hh) hstand
    · intro hstand i hij hh hi
      exact (hboth i j hij hj hh).2 hi (hstand i hij hh) hstand

/-! ### Conditions on the hits -/

/-- If every hit is within a group and either in turn or at the end of a chain, no effective
element hits a larger member of the selection made group by group. -/
theorem not_effective_of_inTurn {D : α → Prop} (hD : ∀ i j, i < j → D j → D i)
    {same : α → α → Prop}
    (h : ∀ i j, i < j → D j → hits i j →
      same i j ∧ (turn i j ∨ ∀ k, j < k → D k → ¬ hits j k)) {i j : α} (hij : i < j) (hj : D j)
    (hh : hits i j) (hker : Kernel (fun i j => same i j ∧ hits i j) j) :
    ¬ Effective turn hits i := by
  have hsame : ∀ i, (∃ j, i < j ∧ D j ∧ hits i j) →
      (Effective turn hits i ↔ Kernel (fun i j => same i j ∧ hits i j) i) := by
    intro i
    induction i using WellFoundedLT.induction with
    | ind i ih =>
        rintro ⟨j, hij, hj, hhj⟩
        have hi := hD i j hij hj
        rw [effective_iff, kernel_iff]
        constructor
        · rintro heff k hki ⟨-, hk⟩ hkker
          -- `i` hits `j`, so the hit of `i` is no end of a chain
          have hturn := (h k i hki hi hk).2.resolve_right fun hend => hend j hij hj hhj
          exact heff k hki hturn hk ((ih k hki ⟨i, hki, hi, hk⟩).mpr hkker)
        · intro hkernel k hki _ hk hkeff
          exact hkernel k hki ⟨(h k i hki hi hk).1, hk⟩ ((ih k hki ⟨i, hki, hi, hk⟩).mp hkeff)
  intro heff
  have hi := (hsame i ⟨j, hij, hj, hh⟩).mp heff
  exact kernel_iff.mp hker i hij ⟨(h i j hij hj hh).1, hh⟩ hi

/-- An element that nothing hits is effective, and strikes down an element of another group
that nothing else hits, although the selection group by group keeps it. -/
theorem effective_of_lone_hit {same : α → α → Prop} {i j : α} (hfirst : ∀ k, k < i → ¬ hits k i)
    (honly : ∀ k, k < j → hits k j → k = i) (hother : ¬ same i j) :
    Kernel (fun i j => same i j ∧ hits i j) j ∧ Effective turn hits i := by
  constructor
  · apply kernel_iff.mpr
    rintro k hkj ⟨hs, hh⟩ -
    rw [honly k hkj hh] at hs
    exact hother hs
  · apply effective_iff.mpr
    intro k hki _ hh
    exact absurd hh (hfirst k hki)

/-- Two orders of turns leave the same elements standing if they agree on the first hit of
every chain of two. -/
theorem standing_iff_of_chains {turn' : α → α → Prop} {D : α → Prop}
    (hD : ∀ i j, i < j → D j → D i)
    (h : ∀ i j k, i < j → j < k → D k → hits i j → hits j k → (turn i j ↔ turn' i j)) {k : α}
    (hk : D k) : Standing turn hits k ↔ Standing turn' hits k := by
  have heff : ∀ j, (∃ k, j < k ∧ D k ∧ hits j k) →
      (Effective turn hits j ↔ Effective turn' hits j) := by
    intro j
    induction j using WellFoundedLT.induction with
    | ind j ih =>
        rintro ⟨k, hjk, hk, hhk⟩
        rw [effective_iff, effective_iff]
        apply forall_congr'
        intro i
        apply forall_congr'
        intro hij
        constructor
        · intro hi hturn hh
          rw [← ih i hij ⟨j, hij, hD j k hjk hk, hh⟩]
          exact hi ((h i j k hij hjk hk hh hhk).mpr hturn) hh
        · intro hi hturn hh
          rw [ih i hij ⟨j, hij, hD j k hjk hk, hh⟩]
          exact hi ((h i j k hij hjk hk hh hhk).mp hturn) hh
  unfold Standing
  apply forall_congr'
  intro j
  apply forall_congr'
  intro hjk
  exact imp_congr_right fun hh => not_congr (heff j ⟨k, hjk, hk, hh⟩)

/-- Of a chain of two that no other hit touches, the turn of the first hit decides whether the
last element is left. -/
theorem standing_iff_of_lone_chain {i j k : α} (hij : i < j) (hjk : j < k) (hhij : hits i j)
    (hhjk : hits j k) (hfirst : ∀ l, l < i → ¬ hits l i) (hsecond : ∀ l, l < j → hits l j → l = i)
    (hthird : ∀ l, l < k → hits l k → l = j) : Standing turn hits k ↔ turn i j := by
  have hi : Effective turn hits i :=
    effective_iff.mpr fun l hl _ hh => absurd hh (hfirst l hl)
  have hj : Effective turn hits j ↔ ¬ turn i j := by
    rw [effective_iff]
    constructor
    · exact fun heff hturn => heff i hij hturn hhij hi
    · intro hturn l hl ht hh
      rw [hsecond l hl hh] at ht
      exact absurd ht hturn
  constructor
  · intro hstand
    by_contra hturn
    exact hstand j hjk hhjk (hj.mpr hturn)
  · intro hturn l hl hh
    rw [hthird l hl hh]
    exact fun heff => hj.mp heff hturn

end Turns

end CatDect.Support
