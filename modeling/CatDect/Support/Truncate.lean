import Mathlib.Algebra.Order.Floor.Ring
import Mathlib.Algebra.Order.Round
import Mathlib.Data.Rat.Floor
import Mathlib.Tactic.Linarith

/-!
# Conversion of a rational to an integer

C converts a floating-point value to an `int` by truncation toward zero.  Over
exact rationals this is `truncate`.
-/

namespace CatDect.Support

/-- `(int)q` for an exact value `q`. -/
def truncate (q : ℚ) : ℤ := if 0 ≤ q then ⌊q⌋ else ⌈q⌉

theorem truncate_of_nonneg {q : ℚ} (h : 0 ≤ q) : truncate q = ⌊q⌋ := if_pos h

@[simp] theorem truncate_intCast (n : ℤ) : truncate n = n := by
  unfold truncate
  split <;> simp

theorem truncate_nonneg {q : ℚ} (h : 0 ≤ q) : 0 ≤ truncate q := by
  rw [truncate_of_nonneg h]
  exact Int.floor_nonneg.mpr h

theorem truncate_le_of_le {q : ℚ} {n : ℤ} (h : 0 ≤ q) (hq : q ≤ n) : truncate q ≤ n := by
  rw [truncate_of_nonneg h]
  exact_mod_cast (Int.floor_le q).trans hq

theorem truncate_le_of_lt {q : ℚ} {n : ℤ} (h : q < n) : truncate q ≤ n := by
  unfold truncate
  split
  · exact_mod_cast (Int.floor_le q).trans h.le
  · exact Int.ceil_le.mpr h.le

theorem truncate_mono_of_nonneg {p q : ℚ} (h : 0 ≤ p) (hpq : p ≤ q) :
    truncate p ≤ truncate q := by
  rw [truncate_of_nonneg h, truncate_of_nonneg (h.trans hpq)]
  exact Int.floor_mono hpq

theorem truncate_div {n : ℤ} (h : 0 ≤ n) (d : ℕ) : truncate ((n : ℚ) / (d : ℚ)) = n / d := by
  rw [truncate_of_nonneg (div_nonneg (by exact_mod_cast h) d.cast_nonneg)]
  exact Rat.floor_intCast_div_natCast n d

theorem truncate_nonpos {q : ℚ} (h : q ≤ 0) : truncate q ≤ 0 := by
  unfold truncate
  split
  · exact_mod_cast (Int.floor_le q).trans h
  · exact Int.ceil_le.mpr (by exact_mod_cast h)

theorem truncate_scaled_back {s : ℚ} (hs : 0 < s) {x : ℤ} (hx : 0 ≤ x) :
    0 ≤ x - truncate ((⌊(x : ℚ) * s⌋ : ℚ) / s) ∧
      ((x - truncate ((⌊(x : ℚ) * s⌋ : ℚ) / s) : ℤ) : ℚ) < 1 / s + 1 := by
  have hnonneg : 0 ≤ (x : ℚ) * s := mul_nonneg (by exact_mod_cast hx) hs.le
  set k := ⌊(x : ℚ) * s⌋ with hk
  have hk0 : (0 : ℚ) ≤ k := by exact_mod_cast Int.floor_nonneg.mpr hnonneg
  have hlow : (k : ℚ) / s ≤ x := (div_le_iff₀ hs).mpr (Int.floor_le _)
  have hhigh : (x : ℚ) < k / s + 1 / s := by
    rw [← add_div, lt_div_iff₀ hs]
    exact Int.lt_floor_add_one _
  rw [truncate_of_nonneg (div_nonneg hk0 hs.le)]
  have hback := Int.floor_le ((k : ℚ) / s)
  have hnext := Int.lt_floor_add_one ((k : ℚ) / s)
  constructor
  · have hle : ⌊(k : ℚ) / s⌋ ≤ x := by exact_mod_cast hback.trans hlow
    omega
  · push_cast
    linarith

end CatDect.Support
