import CatDect.Postprocess.Decode
import Mathlib.Order.Monotone.Defs

/-!
# The decoders for tensors in planes

Outside the RV1106 build the outputs come as `[1, 255, H, W]`, one plane of the grid for
each of the 255 values of a position, and `post_process` calls `process_i8` on a quantised
model and `process_fp32` on any other.  `processFp32_dequantised` says that the second
function on the dequantised tensor does what the first does on the bytes, provided it is
given the threshold that the first one really applies.
-/

namespace CatDect.Postprocess

open CatDect.Support

/-! ## The code -/

structure Grid where
  anchor : List ℤ
  gridH : ℤ
  gridW : ℤ
  stride : ℤ

def Grid.gridLen (g : Grid) : ℤ := g.gridH * g.gridW

/-- The class loop of both functions; the values of a position lie `gridLen` apart. -/
def maxClassNchw {α : Type} [LT α] [DecidableLT α] (input : List α) (offset gridLen : ℤ) :
    Option (α × ℕ) := do
  let first ← readAt input (offset + 5 * gridLen)
  (List.range' 1 (objClassNum - 1)).foldlM (fun best (k : ℕ) => do
    let prob ← readAt input (offset + (5 + k) * gridLen)
    some (if prob > best.1 then (prob, k) else best)) (first, 0)

def decodeCellI8 (g : Grid) (threshold : ℚ) (zp : ℤ) (scale : ℚ) (input : List ℤ) (a i : ℕ)
    (d : Candidates) (j : ℕ) : Option Candidates := do
  let thresI8 := qntF32ToAffine threshold zp scale
  let boxConfidence ← readAt input ((propBoxSize * a + 4) * g.gridLen + i * g.gridW + j)
  if boxConfidence ≥ thresI8 then do
    let offset := propBoxSize * a * g.gridLen + i * g.gridW + j
    let q0 ← readAt input offset
    let q1 ← readAt input (offset + g.gridLen)
    let q2 ← readAt input (offset + 2 * g.gridLen)
    let q3 ← readAt input (offset + 3 * g.gridLen)
    let anchorW ← readAt g.anchor (a * 2)
    let anchorH ← readAt g.anchor (a * 2 + 1)
    let boxX := deqntAffineToF32 q0 zp scale * 2 - 1 / 2
    let boxY := deqntAffineToF32 q1 zp scale * 2 - 1 / 2
    let boxW := deqntAffineToF32 q2 zp scale * 2
    let boxH := deqntAffineToF32 q3 zp scale * 2
    let boxX := (boxX + j) * g.stride
    let boxY := (boxY + i) * g.stride
    let boxW := boxW * boxW * anchorW
    let boxH := boxH * boxH * anchorH
    let (maxClassProbs, maxClassId) ← maxClassNchw input offset g.gridLen
    if maxClassProbs > thresI8 then
      some (d.push
        { x := boxX - boxW / 2, y := boxY - boxH / 2, w := boxW, h := boxH,
          score := deqntAffineToF32 maxClassProbs zp scale *
            deqntAffineToF32 boxConfidence zp scale,
          cls := maxClassId })
    else some d
  else some d

/-- `process_i8`; its return value is the growth of `validCount`. -/
def processI8 (g : Grid) (threshold : ℚ) (zp : ℤ) (scale : ℚ) (input : List ℤ)
    (d : Candidates) : Option Candidates :=
  (List.range 3).foldlM (fun d a =>
    (List.range g.gridH.toNat).foldlM (fun d i =>
      (List.range g.gridW.toNat).foldlM (decodeCellI8 g threshold zp scale input a i) d) d) d

def decodeCellFp32 (g : Grid) (threshold : ℚ) (input : List ℚ) (a i : ℕ) (d : Candidates)
    (j : ℕ) : Option Candidates := do
  let boxConfidence ← readAt input ((propBoxSize * a + 4) * g.gridLen + i * g.gridW + j)
  if boxConfidence ≥ threshold then do
    let offset := propBoxSize * a * g.gridLen + i * g.gridW + j
    let v0 ← readAt input offset
    let v1 ← readAt input (offset + g.gridLen)
    let v2 ← readAt input (offset + 2 * g.gridLen)
    let v3 ← readAt input (offset + 3 * g.gridLen)
    let anchorW ← readAt g.anchor (a * 2)
    let anchorH ← readAt g.anchor (a * 2 + 1)
    let boxX := v0 * 2 - 1 / 2
    let boxY := v1 * 2 - 1 / 2
    let boxW := v2 * 2
    let boxH := v3 * 2
    let boxX := (boxX + j) * g.stride
    let boxY := (boxY + i) * g.stride
    let boxW := boxW * boxW * anchorW
    let boxH := boxH * boxH * anchorH
    let (maxClassProbs, maxClassId) ← maxClassNchw input offset g.gridLen
    if maxClassProbs > threshold then
      some (d.push
        { x := boxX - boxW / 2, y := boxY - boxH / 2, w := boxW, h := boxH,
          score := maxClassProbs * boxConfidence, cls := maxClassId })
    else some d
  else some d

/-- `process_fp32`; its return value is the growth of `validCount`. -/
def processFp32 (g : Grid) (threshold : ℚ) (input : List ℚ) (d : Candidates) :
    Option Candidates :=
  (List.range 3).foldlM (fun d a =>
    (List.range g.gridH.toNat).foldlM (fun d i =>
      (List.range g.gridW.toNat).foldlM (decodeCellFp32 g threshold input a i) d) d) d

/-! ## Dequantisation through the loops -/

theorem maxClassNchw_map {α β : Type} [LinearOrder α] [LinearOrder β] {f : α → β}
    (hf : StrictMono f) (input : List α) (offset gridLen : ℤ) :
    maxClassNchw (input.map f) offset gridLen =
      (maxClassNchw input offset gridLen).map (Prod.map f id) := by
  unfold maxClassNchw
  rw [readAt_map]
  cases readAt input (offset + 5 * gridLen) with
  | none => rfl
  | some first =>
      rw [Option.map_some, Option.bind_eq_bind, Option.bind_some, Option.bind_eq_bind,
        Option.bind_some]
      apply foldlM_comm (Prod.map f id) _ (first, 0)
      intro best k
      rw [readAt_map]
      cases readAt input (offset + (5 + k) * gridLen) with
      | none => rfl
      | some prob =>
          simp only [Option.map_some, Option.bind_some, Prod.map_fst, hf.lt_iff_lt, gt_iff_lt,
            Option.some_inj]
          split
          · rfl
          · rfl

section Dequantised

variable {zp : ℤ} {scale : ℚ}

variable (g : Grid) (threshold : ℚ) (input : List ℤ)

/-- **One position.**  Both comparisons come out the same, since dequantisation is strictly
increasing; the rest is computed from the same values. -/
theorem decodeCellFp32_dequantised (hscale : 0 < scale) (a i : ℕ) (d : Candidates) (j : ℕ) :
    decodeCellFp32 g (deqntAffineToF32 (qntF32ToAffine threshold zp scale) zp scale)
        (input.map fun q => deqntAffineToF32 q zp scale) a i d j =
      decodeCellI8 g threshold zp scale input a i d j := by
  have hmono : StrictMono fun q => deqntAffineToF32 q zp scale :=
    fun _ _ hpq => deqntAffineToF32_lt hscale hpq
  have hle : ∀ p q, deqntAffineToF32 p zp scale ≤ deqntAffineToF32 q zp scale ↔ p ≤ q :=
    fun p q => hmono.le_iff_le
  have hlt : ∀ p q, deqntAffineToF32 p zp scale < deqntAffineToF32 q zp scale ↔ p < q :=
    fun p q => hmono.lt_iff_lt
  unfold decodeCellFp32 decodeCellI8
  rw [readAt_map]
  cases readAt input ((propBoxSize * a + 4) * g.gridLen + i * g.gridW + j) with
  | none => rfl
  | some boxConfidence =>
      simp only [Option.map_some, Option.bind_eq_bind, Option.bind_some, ge_iff_le, hle]
      by_cases hconf : qntF32ToAffine threshold zp scale ≤ boxConfidence
      · rw [if_pos hconf, if_pos hconf]
        simp only [readAt_map, maxClassNchw_map hmono, Option.bind_map, Function.comp_def,
          Prod.map_fst, Prod.map_snd, gt_iff_lt, hlt, id]
      · rw [if_neg hconf, if_neg hconf]

theorem processFp32_dequantised (hscale : 0 < scale) (d : Candidates) :
    processFp32 g (deqntAffineToF32 (qntF32ToAffine threshold zp scale) zp scale)
        (input.map fun q => deqntAffineToF32 q zp scale) d =
      processI8 g threshold zp scale input d := by
  have hcell : ∀ a i, decodeCellFp32 g (deqntAffineToF32 (qntF32ToAffine threshold zp scale) zp
      scale) (input.map fun q => deqntAffineToF32 q zp scale) a i =
      decodeCellI8 g threshold zp scale input a i := by
    intro a i
    funext d j
    exact decodeCellFp32_dequantised g threshold input hscale a i d j
  unfold processFp32 processI8
  simp only [hcell]

end Dequantised

/-! ## All reads are in range -/

section Range

variable {g : Grid} {input : List ℤ} {a i j : ℕ}

theorem exists_readPlane (hlength : input.length = g.gridH.toNat * g.gridW.toNat * 255)
    (ha : a < 3) (hi : i < g.gridH.toNat) (hj : j < g.gridW.toNat) {k : ℕ} (hk : k < propBoxSize)
    {n : ℤ} (hn : n = (propBoxSize * a + k) * g.gridLen + i * g.gridW + j) :
    ∃ q, readAt input n = some q := by
  obtain ⟨rows, hrows⟩ : ∃ rows : ℕ, g.gridH = rows := ⟨g.gridH.toNat, by omega⟩
  obtain ⟨cols, hcols⟩ : ∃ cols : ℕ, g.gridW = cols := ⟨g.gridW.toNat, by omega⟩
  rw [hrows, hcols, Int.toNat_natCast, Int.toNat_natCast] at hlength
  rw [hrows, Int.toNat_natCast] at hi
  rw [hcols, Int.toNat_natCast] at hj
  have hcast : n = ((propBoxSize * a + k) * (rows * cols) + i * cols + j : ℕ) := by
    rw [hn, Grid.gridLen, hrows, hcols]
    push_cast
    ring
  have hplane : propBoxSize * a + k + 1 ≤ 255 := by
    have hsize : propBoxSize = 85 := rfl
    rw [hsize]
    rw [hsize] at hk
    omega
  have hcell : i * cols + j < rows * cols :=
    calc i * cols + j < i * cols + cols := Nat.add_lt_add_left hj _
      _ = (i + 1) * cols := (Nat.succ_mul i cols).symm
      _ ≤ rows * cols := Nat.mul_le_mul_right _ hi
  have hlt : (propBoxSize * a + k) * (rows * cols) + i * cols + j < input.length :=
    calc (propBoxSize * a + k) * (rows * cols) + i * cols + j
        < (propBoxSize * a + k) * (rows * cols) + rows * cols := by omega
      _ = (propBoxSize * a + k + 1) * (rows * cols) := (Nat.succ_mul _ _).symm
      _ ≤ 255 * (rows * cols) := Nat.mul_le_mul_right _ hplane
      _ = input.length := by rw [hlength, Nat.mul_comm]
  rw [hcast]
  exact exists_readAt (Int.natCast_nonneg _) (by exact_mod_cast hlt)

theorem exists_maxClassNchw {offset gridLen : ℤ}
    (hread : ∀ k < objClassNum, ∃ q, readAt input (offset + (5 + (k : ℕ)) * gridLen) = some q) :
    ∃ best, maxClassNchw input offset gridLen = some best := by
  obtain ⟨first, hfirst⟩ := hread 0 (by decide)
  rw [Nat.cast_zero, add_zero] at hfirst
  have hround : ∀ k ∈ List.range' 1 (objClassNum - 1), ∀ best : ℤ × ℕ, ∃ best',
      (do
        let prob ← readAt input (offset + (5 + (k : ℕ)) * gridLen)
        some (if prob > best.1 then (prob, k) else best)) = some best' := by
    intro k hk best
    have hk := List.mem_range'_1.mp hk
    have hnum : objClassNum = 80 := rfl
    obtain ⟨prob, hprob⟩ := hread k (by omega)
    rw [hprob]
    exact ⟨_, rfl⟩
  obtain ⟨best, hbest⟩ := foldlM_total hround (first, 0)
  refine ⟨best, ?_⟩
  unfold maxClassNchw
  rw [hfirst]
  exact hbest

theorem exists_decodeCellI8 (hlength : input.length = g.gridH.toNat * g.gridW.toNat * 255)
    (hanchor : g.anchor.length = 6) (ha : a < 3) (hi : i < g.gridH.toNat)
    (hj : j < g.gridW.toNat) (threshold : ℚ) (zp : ℤ) (scale : ℚ) (d : Candidates) :
    ∃ d', decodeCellI8 g threshold zp scale input a i d j = some d' := by
  have hplane : ∀ k < propBoxSize, ∀ n : ℤ,
      n = (propBoxSize * a + k) * g.gridLen + i * g.gridW + j → ∃ q, readAt input n = some q :=
    fun k hk n hn => exists_readPlane hlength ha hi hj hk hn
  obtain ⟨conf, hconf⟩ := hplane 4 (by decide)
    ((propBoxSize * a + 4) * g.gridLen + i * g.gridW + j) (by push_cast; ring)
  obtain ⟨q0, h0⟩ := hplane 0 (by decide) (propBoxSize * a * g.gridLen + i * g.gridW + j)
    (by push_cast; ring)
  obtain ⟨q1, h1⟩ := hplane 1 (by decide)
    (propBoxSize * a * g.gridLen + i * g.gridW + j + g.gridLen) (by push_cast; ring)
  obtain ⟨q2, h2⟩ := hplane 2 (by decide)
    (propBoxSize * a * g.gridLen + i * g.gridW + j + 2 * g.gridLen) (by push_cast; ring)
  obtain ⟨q3, h3⟩ := hplane 3 (by decide)
    (propBoxSize * a * g.gridLen + i * g.gridW + j + 3 * g.gridLen) (by push_cast; ring)
  obtain ⟨anchorW, hW⟩ := exists_readAt (v := g.anchor) (i := a * 2) (by omega) (by omega)
  obtain ⟨anchorH, hH⟩ := exists_readAt (v := g.anchor) (i := a * 2 + 1) (by omega) (by omega)
  have hclasses : ∀ k < objClassNum, ∃ q, readAt input
      (propBoxSize * a * g.gridLen + i * g.gridW + j + (5 + (k : ℕ)) * g.gridLen) = some q := by
    intro k hk
    have hsize : propBoxSize = 5 + objClassNum := rfl
    exact hplane (5 + k) (by omega) _ (by push_cast; ring)
  obtain ⟨best, hbest⟩ := exists_maxClassNchw hclasses
  unfold decodeCellI8
  simp only [hconf, h0, h1, h2, h3, hW, hH, hbest, Option.bind_eq_bind, Option.bind_some]
  split_ifs
  · exact ⟨_, rfl⟩
  · exact ⟨_, rfl⟩
  · exact ⟨_, rfl⟩

theorem exists_processI8 (hlength : input.length = g.gridH.toNat * g.gridW.toNat * 255)
    (hanchor : g.anchor.length = 6) (threshold : ℚ) (zp : ℤ) (scale : ℚ) (d : Candidates) :
    ∃ d', processI8 g threshold zp scale input d = some d' := by
  apply foldlM_total
  intro a ha d
  apply foldlM_total
  intro i hi d
  apply foldlM_total
  intro j hj d
  exact exists_decodeCellI8 hlength hanchor (List.mem_range.mp ha) (List.mem_range.mp hi)
    (List.mem_range.mp hj) threshold zp scale d

/-- **The two decoders agree.**  On a tensor of the right size both append the same boxes,
scores and classes, in the same order. -/
theorem processI8_eq_processFp32 {scale : ℚ} (hscale : 0 < scale)
    (hlength : input.length = g.gridH.toNat * g.gridW.toNat * 255)
    (hanchor : g.anchor.length = 6) (zp : ℤ) (threshold : ℚ) (d : Candidates) :
    ∃ d', processI8 g threshold zp scale input d = some d' ∧
      processFp32 g (deqntAffineToF32 (qntF32ToAffine threshold zp scale) zp scale)
        (input.map fun q => deqntAffineToF32 q zp scale) d = some d' := by
  obtain ⟨d', hd'⟩ := exists_processI8 hlength hanchor threshold zp scale d
  exact ⟨d', hd', (processFp32_dequantised g threshold input hscale d).trans hd'⟩

end Range

def oneCellGrid : Grid where
  anchor := [10, 13, 16, 30, 33, 23]
  gridH := 1
  gridW := 1
  stride := 8

theorem processI8_eq_processFp32_oneCell :
    ∃ d', processI8 oneCellGrid (1 / 4) (-128) (1 / 255) (List.replicate 255 127) .empty =
        some d' ∧
      processFp32 oneCellGrid
        (deqntAffineToF32 (qntF32ToAffine (1 / 4) (-128) (1 / 255)) (-128) (1 / 255))
        ((List.replicate 255 127).map fun q => deqntAffineToF32 q (-128) (1 / 255)) .empty =
        some d' := by
  have hlength : (List.replicate 255 (127 : ℤ)).length =
      oneCellGrid.gridH.toNat * oneCellGrid.gridW.toNat * 255 := by
    rw [List.length_replicate]
    rfl
  exact processI8_eq_processFp32 (by norm_num) hlength rfl (-128) (1 / 4) .empty

end CatDect.Postprocess
