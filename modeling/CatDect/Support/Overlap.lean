import Mathlib.Algebra.Order.Field.Basic
import Mathlib.Tactic.Linarith

/-!
# Intersection over union of boxes of pixels

A span from `a` to `b` covers `b - a + 1` pixels, and so does a box in each direction.  The
quotient of the common and the joint area of two boxes is a measure of similarity: it lies
between 0 and 1, does not depend on the order of the boxes, and is 1 for equal boxes only.
-/

namespace CatDect.Support

variable {K : Type*} [Field K] [LinearOrder K] [IsStrictOrderedRing K]

/-! ## Spans -/

section Span

def spanOverlap (a b c d : K) : K := max 0 (min b d - max a c + 1)

variable {a b c d : K}

omit [IsStrictOrderedRing K] in
theorem spanOverlap_nonneg : 0 ≤ spanOverlap a b c d := le_max_left _ _

omit [IsStrictOrderedRing K] in
theorem spanOverlap_comm (a b c d : K) : spanOverlap a b c d = spanOverlap c d a b := by
  unfold spanOverlap
  rw [min_comm b d, max_comm a c]

theorem spanOverlap_le (hab : a ≤ b) : spanOverlap a b c d ≤ b - a + 1 := by
  have hmin : min b d ≤ b := min_le_left b d
  have hmax : a ≤ max a c := le_max_left a c
  unfold spanOverlap
  apply max_le
  · linarith
  · linarith

theorem within_of_spanOverlap_eq (hab : a ≤ b) (h : spanOverlap a b c d = b - a + 1) :
    c ≤ a ∧ b ≤ d := by
  have hmin : min b d ≤ b := min_le_left b d
  have hmax : a ≤ max a c := le_max_left a c
  have hpositive : 0 < b - a + 1 := by linarith
  have hvalue : min b d - max a c + 1 = b - a + 1 := by
    unfold spanOverlap at h
    rcases max_choice 0 (min b d - max a c + 1) with hzero | hspan
    · rw [hzero] at h
      exact absurd h hpositive.ne
    · rw [← hspan, h]
  have hright : min b d = b := by linarith
  have hleft : max a c = a := by linarith
  exact ⟨max_eq_left_iff.mp hleft, min_eq_left_iff.mp hright⟩

end Span

/-! ## Boxes -/

@[ext] structure Box (K : Type*) [LE K] where
  xmin : K
  ymin : K
  xmax : K
  ymax : K
  xmin_le : xmin ≤ xmax
  ymin_le : ymin ≤ ymax

namespace Box

def area (A : Box K) : K := (A.xmax - A.xmin + 1) * (A.ymax - A.ymin + 1)

def common (A B : Box K) : K :=
  spanOverlap A.xmin A.xmax B.xmin B.xmax * spanOverlap A.ymin A.ymax B.ymin B.ymax

def joint (A B : Box K) : K := A.area + B.area - A.common B

def similarity (A B : Box K) : K := A.common B / A.joint B

variable (A B : Box K)

theorem width_pos : 0 < A.xmax - A.xmin + 1 := by
  linarith [A.xmin_le]

theorem height_pos : 0 < A.ymax - A.ymin + 1 := by
  linarith [A.ymin_le]

theorem area_pos : 0 < A.area := mul_pos A.width_pos A.height_pos

theorem common_nonneg : 0 ≤ A.common B := mul_nonneg spanOverlap_nonneg spanOverlap_nonneg

omit [IsStrictOrderedRing K] in
theorem common_comm : A.common B = B.common A := by
  unfold common
  rw [spanOverlap_comm A.xmin, spanOverlap_comm A.ymin]

theorem common_le : A.common B ≤ A.area :=
  mul_le_mul (spanOverlap_le A.xmin_le) (spanOverlap_le A.ymin_le) spanOverlap_nonneg
    A.width_pos.le

theorem common_le_right : A.common B ≤ B.area := by
  rw [common_comm]
  exact B.common_le A

omit [IsStrictOrderedRing K] in
theorem joint_comm : A.joint B = B.joint A := by
  unfold joint
  rw [common_comm, add_comm A.area]

theorem joint_pos : 0 < A.joint B := by
  have hle := A.common_le_right B
  have hpos := A.area_pos
  unfold joint
  linarith

omit [IsStrictOrderedRing K] in
theorem similarity_comm : A.similarity B = B.similarity A := by
  unfold similarity
  rw [common_comm, joint_comm]

theorem similarity_nonneg : 0 ≤ A.similarity B :=
  div_nonneg (A.common_nonneg B) (A.joint_pos B).le

theorem similarity_le_one : A.similarity B ≤ 1 := by
  have hle := A.common_le B
  have hle' := A.common_le_right B
  unfold similarity
  rw [div_le_one (A.joint_pos B)]
  unfold joint
  linarith

theorem common_self : A.common A = A.area := by
  have hx := A.width_pos
  have hy := A.height_pos
  unfold common area spanOverlap
  rw [min_self, max_self, min_self, max_self, max_eq_right hx.le, max_eq_right hy.le]

variable {A B}

theorem within_of_common_eq (h : A.common B = A.area) :
    (B.xmin ≤ A.xmin ∧ A.xmax ≤ B.xmax) ∧ B.ymin ≤ A.ymin ∧ A.ymax ≤ B.ymax := by
  have hx : spanOverlap A.xmin A.xmax B.xmin B.xmax ≤ A.xmax - A.xmin + 1 :=
    spanOverlap_le A.xmin_le
  have hy : spanOverlap A.ymin A.ymax B.ymin B.ymax ≤ A.ymax - A.ymin + 1 :=
    spanOverlap_le A.ymin_le
  have hx0 : 0 ≤ spanOverlap A.xmin A.xmax B.xmin B.xmax := spanOverlap_nonneg
  have hxeq : spanOverlap A.xmin A.xmax B.xmin B.xmax = A.xmax - A.xmin + 1 := by
    apply le_antisymm hx
    apply le_of_mul_le_mul_right _ A.height_pos
    calc (A.xmax - A.xmin + 1) * (A.ymax - A.ymin + 1)
        = spanOverlap A.xmin A.xmax B.xmin B.xmax *
            spanOverlap A.ymin A.ymax B.ymin B.ymax := h.symm
      _ ≤ spanOverlap A.xmin A.xmax B.xmin B.xmax * (A.ymax - A.ymin + 1) :=
          mul_le_mul_of_nonneg_left hy hx0
  have hyeq : spanOverlap A.ymin A.ymax B.ymin B.ymax = A.ymax - A.ymin + 1 := by
    have harea : spanOverlap A.xmin A.xmax B.xmin B.xmax *
        spanOverlap A.ymin A.ymax B.ymin B.ymax =
        (A.xmax - A.xmin + 1) * (A.ymax - A.ymin + 1) := h
    rw [hxeq] at harea
    exact mul_left_cancel₀ A.width_pos.ne' harea
  exact ⟨within_of_spanOverlap_eq A.xmin_le hxeq, within_of_spanOverlap_eq A.ymin_le hyeq⟩

/-- **Only equal boxes are completely similar.** -/
theorem similarity_eq_one_iff : A.similarity B = 1 ↔ A = B := by
  constructor
  · intro h
    have hjoint : A.common B = A.joint B := (div_eq_one_iff_eq (A.joint_pos B).ne').mp h
    have hle := A.common_le B
    have hle' := A.common_le_right B
    unfold joint at hjoint
    have hA : A.common B = A.area := by linarith
    have hB : B.common A = B.area := by
      rw [common_comm]
      linarith
    obtain ⟨⟨hx, hx'⟩, hy, hy'⟩ := within_of_common_eq hA
    obtain ⟨⟨kx, kx'⟩, ky, ky'⟩ := within_of_common_eq hB
    ext
    · exact le_antisymm kx hx
    · exact le_antisymm ky hy
    · exact le_antisymm hx' kx'
    · exact le_antisymm hy' ky'
  · intro h
    subst h
    have hpos := A.joint_pos A
    unfold similarity
    unfold joint at hpos ⊢
    rw [common_self] at hpos ⊢
    rw [add_sub_cancel_right] at hpos ⊢
    exact div_self hpos.ne'

end Box

end CatDect.Support
