import CatDect.Postprocess.Nms
import CatDect.Support.Overlap
import Mathlib.Algebra.Order.Ring.Rat

/-!
# `CalculateOverlap` as a measure of similarity

`nms` calls `CalculateOverlap` on one ordering of each pair of boxes and strikes a box out
if the value exceeds the threshold.  For boxes with their corners in order the zero guard
is never taken, and the value is the similarity of the two boxes.
-/

namespace CatDect.Postprocess

open CatDect.Support

/-- `i` in `CalculateOverlap`. -/
def overlapArea (xmin0 ymin0 xmax0 ymax0 xmin1 ymin1 xmax1 ymax1 : ℚ) : ℚ :=
  max 0 (min xmax0 xmax1 - max xmin0 xmin1 + 1) * max 0 (min ymax0 ymax1 - max ymin0 ymin1 + 1)

/-- `u`, the denominator. -/
def overlapDenominator (xmin0 ymin0 xmax0 ymax0 xmin1 ymin1 xmax1 ymax1 : ℚ) : ℚ :=
  (xmax0 - xmin0 + 1) * (ymax0 - ymin0 + 1) + (xmax1 - xmin1 + 1) * (ymax1 - ymin1 + 1) -
    overlapArea xmin0 ymin0 xmax0 ymax0 xmin1 ymin1 xmax1 ymax1

theorem calculateOverlap_guard (xmin0 ymin0 xmax0 ymax0 xmin1 ymin1 xmax1 ymax1 : ℚ) :
    calculateOverlap xmin0 ymin0 xmax0 ymax0 xmin1 ymin1 xmax1 ymax1 =
      if overlapDenominator xmin0 ymin0 xmax0 ymax0 xmin1 ymin1 xmax1 ymax1 ≤ 0 then 0
      else overlapArea xmin0 ymin0 xmax0 ymax0 xmin1 ymin1 xmax1 ymax1 /
        overlapDenominator xmin0 ymin0 xmax0 ymax0 xmin1 ymin1 xmax1 ymax1 := rfl

def overlapOf (A B : Box ℚ) : ℚ :=
  calculateOverlap A.xmin A.ymin A.xmax A.ymax B.xmin B.ymin B.xmax B.ymax

theorem overlapDenominator_eq (A B : Box ℚ) :
    overlapDenominator A.xmin A.ymin A.xmax A.ymax B.xmin B.ymin B.xmax B.ymax = A.joint B := rfl

theorem overlapOf_eq_similarity (A B : Box ℚ) : overlapOf A B = A.similarity B := by
  have hpos : ¬ A.joint B ≤ 0 := not_le.mpr (A.joint_pos B)
  unfold overlapOf
  rw [calculateOverlap_guard, overlapDenominator_eq, if_neg hpos]
  rfl

def Candidate.corners (c : Candidate) (hw : 0 ≤ c.w) (hh : 0 ≤ c.h) : Box ℚ where
  xmin := c.x
  ymin := c.y
  xmax := c.x + c.w
  ymax := c.y + c.h
  xmin_le := le_add_of_nonneg_right hw
  ymin_le := le_add_of_nonneg_right hh

theorem Candidate.overlap_eq_similarity {a b : Candidate} (haw : 0 ≤ a.w) (hah : 0 ≤ a.h)
    (hbw : 0 ≤ b.w) (hbh : 0 ≤ b.h) :
    a.overlap b = (a.corners haw hah).similarity (b.corners hbw hbh) :=
  overlapOf_eq_similarity (a.corners haw hah) (b.corners hbw hbh)

section Corners

variable {xmin0 ymin0 xmax0 ymax0 xmin1 ymin1 xmax1 ymax1 : ℚ}

/-- **`CalculateOverlap` is a similarity measure.**  On boxes with their corners in order the
denominator is positive, so that the value is the quotient; it lies between 0 and 1, is the
same for both orderings of the boxes, and is 1 exactly if they coincide. -/
theorem calculateOverlap_similarity (hx0 : xmin0 ≤ xmax0) (hy0 : ymin0 ≤ ymax0)
    (hx1 : xmin1 ≤ xmax1) (hy1 : ymin1 ≤ ymax1) :
    0 < overlapDenominator xmin0 ymin0 xmax0 ymax0 xmin1 ymin1 xmax1 ymax1 ∧
      calculateOverlap xmin0 ymin0 xmax0 ymax0 xmin1 ymin1 xmax1 ymax1 =
        overlapArea xmin0 ymin0 xmax0 ymax0 xmin1 ymin1 xmax1 ymax1 /
          overlapDenominator xmin0 ymin0 xmax0 ymax0 xmin1 ymin1 xmax1 ymax1 ∧
      0 ≤ calculateOverlap xmin0 ymin0 xmax0 ymax0 xmin1 ymin1 xmax1 ymax1 ∧
      calculateOverlap xmin0 ymin0 xmax0 ymax0 xmin1 ymin1 xmax1 ymax1 ≤ 1 ∧
      calculateOverlap xmin0 ymin0 xmax0 ymax0 xmin1 ymin1 xmax1 ymax1 =
        calculateOverlap xmin1 ymin1 xmax1 ymax1 xmin0 ymin0 xmax0 ymax0 ∧
      (calculateOverlap xmin0 ymin0 xmax0 ymax0 xmin1 ymin1 xmax1 ymax1 = 1 ↔
        xmin0 = xmin1 ∧ ymin0 = ymin1 ∧ xmax0 = xmax1 ∧ ymax0 = ymax1) := by
  let A : Box ℚ := ⟨xmin0, ymin0, xmax0, ymax0, hx0, hy0⟩
  let B : Box ℚ := ⟨xmin1, ymin1, xmax1, ymax1, hx1, hy1⟩
  have hAB : calculateOverlap xmin0 ymin0 xmax0 ymax0 xmin1 ymin1 xmax1 ymax1 =
      A.similarity B := overlapOf_eq_similarity A B
  have hBA : calculateOverlap xmin1 ymin1 xmax1 ymax1 xmin0 ymin0 xmax0 ymax0 =
      B.similarity A := overlapOf_eq_similarity B A
  have hpos : 0 < overlapDenominator xmin0 ymin0 xmax0 ymax0 xmin1 ymin1 xmax1 ymax1 :=
    A.joint_pos B
  have hsame : A = B ↔ xmin0 = xmin1 ∧ ymin0 = ymin1 ∧ xmax0 = xmax1 ∧ ymax0 = ymax1 :=
    Box.ext_iff
  refine ⟨hpos, ?_, ?_, ?_, ?_, ?_⟩
  · rw [calculateOverlap_guard, if_neg (not_le.mpr hpos)]
  · rw [hAB]
    exact A.similarity_nonneg B
  · rw [hAB]
    exact A.similarity_le_one B
  · rw [hAB, hBA]
    exact A.similarity_comm B
  · rw [hAB, Box.similarity_eq_one_iff, hsame]

end Corners

theorem calculateOverlap_similarity_neighbours :
    0 < overlapDenominator 0 0 1 1 1 0 2 1 ∧
      calculateOverlap 0 0 1 1 1 0 2 1 =
        overlapArea 0 0 1 1 1 0 2 1 / overlapDenominator 0 0 1 1 1 0 2 1 ∧
      0 ≤ calculateOverlap 0 0 1 1 1 0 2 1 ∧ calculateOverlap 0 0 1 1 1 0 2 1 ≤ 1 ∧
      calculateOverlap 0 0 1 1 1 0 2 1 = calculateOverlap 1 0 2 1 0 0 1 1 ∧
      (calculateOverlap 0 0 1 1 1 0 2 1 = 1 ↔
        (0 : ℚ) = 1 ∧ (0 : ℚ) = 0 ∧ (1 : ℚ) = 2 ∧ (1 : ℚ) = 1) :=
  calculateOverlap_similarity (by decide +kernel) (by decide +kernel) (by decide +kernel)
    (by decide +kernel)

end CatDect.Postprocess
