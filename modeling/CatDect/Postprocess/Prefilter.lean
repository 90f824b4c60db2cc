import CatDect.Postprocess.Cells

/-!
# The quantised comparison

Before it dequantises a cell, `process_i8_rv1106` compares the confidence byte with the
quantised threshold.  The threshold is rounded toward zero and saturated, and still no cell
is lost: whenever the exact product exceeds the threshold, so does the confidence, and the
byte is at least as large as the rounded quotient.
-/

namespace CatDect.Postprocess

open CatDect.Support

/-! ## The decode without the comparison -/

def maxClassF32 (b : Branch) (input : List ℤ) (hwOffset : ℤ) : Option (ℚ × ℕ) := do
  let first ← readAt input (hwOffset + 5)
  (List.range' 1 (objClassNum - 1)).foldlM (fun best (k : ℕ) => do
    let q ← readAt input (hwOffset + 5 + k)
    let prob := deqntAffineToF32 q b.zp b.scale
    some (if prob > best.1 then (prob, k) else best)) (deqntAffineToF32 first b.zp b.scale, 0)

/-- `decodeCell` on dequantised values only. -/
def decodeCellF32 (b : Branch) (input : List ℤ) (h w : ℕ) (d : Candidates) (a : ℕ) :
    Option Candidates := do
  let alignC : ℤ := propBoxSize * 3
  let hwOffset := h * b.gridW * alignC + w * alignC + a * propBoxSize
  let boxConfidence ← readAt input (hwOffset + 4)
  let (classProbF32, maxClassId) ← maxClassF32 b input hwOffset
  let limitScore := deqntAffineToF32 boxConfidence b.zp b.scale * classProbF32
  if limitScore > b.threshold then do
    let c ← decodeBox b input hwOffset h w a limitScore maxClassId
    some (d.push c)
  else some d

def processF32 (b : Branch) (input : List ℤ) (d : Candidates) : Option Candidates :=
  (List.range b.gridH.toNat).foldlM (fun d h =>
    (List.range b.gridW.toNat).foldlM (fun d w =>
      (List.range 3).foldlM (decodeCellF32 b input h w) d) d) d

/-- The cells whose exact score exceeds the threshold, decoded, in the order of the loops. -/
def Branch.exactCandidates (b : Branch) (input : List ℤ) : List Candidate :=
  (b.cells.filter fun c => b.threshold < b.score input c).map (b.decoded input)

theorem bestClass_isFirstMax {b : Branch} (hscale : 0 < b.scale) (input : List ℤ) (c : Cell) :
    IsFirstMax (b.classProb input c) objClassNum (bestClass input (b.offset c)) := by
  have hbytes := firstMax_spec (fun k => input.getD (b.offset c + 5 + k) 0)
    (by decide : 0 < objClassNum)
  have hmono : StrictMono fun q => deqntAffineToF32 q b.zp b.scale :=
    fun _ _ hpq => deqntAffineToF32_lt hscale hpq
  have hvalues := hbytes.comp_strictMono hmono
  exact hvalues

theorem maxClassF32_eq {b : Branch} (hscale : 0 < b.scale) {input : List ℤ} {c : Cell}
    (h : b.offset c + propBoxSize ≤ input.length) :
    maxClassF32 b input (b.offset c) =
      some (b.classProb input c (bestClass input (b.offset c)), bestClass input (b.offset c)) := by
  have hsize : propBoxSize = 5 + objClassNum := rfl
  have hpos : 0 < objClassNum := by decide
  have hfirst : readAt input ((b.offset c : ℤ) + 5) = some (input.getD (b.offset c + 5) 0) :=
    readAt_add (k := 5) (by omega)
  have hbest : firstMax (b.classProb input c) objClassNum = bestClass input (b.offset c) :=
    (firstMax_spec _ hpos).eq (bestClass_isFirstMax hscale input c)
  unfold maxClassF32
  rw [hfirst, Option.bind_eq_bind, Option.bind_some, ← hbest]
  apply foldlM_firstMax (f := b.classProb input c) hpos
  intro k hk best
  have hread : readAt input ((b.offset c : ℤ) + 5 + (k : ℕ)) =
      some (input.getD (b.offset c + 5 + k) 0) := readAt_add (n := b.offset c + 5) (by omega)
  rw [hread]
  rfl

theorem decodeCellF32_eq {b : Branch} {input : List ℤ} {h w a : ℕ} {d : Candidates}
    (hgridW : 0 ≤ b.gridW) (hscale : 0 < b.scale)
    (hfit : b.offset ⟨h, w, a⟩ + propBoxSize ≤ input.length)
    (hanchor : b.anchor.length = 6) (ha : a < 3) :
    decodeCellF32 b input h w d a =
      some (if b.threshold < b.score input ⟨h, w, a⟩ then d.push (b.decoded input ⟨h, w, a⟩)
        else d) := by
  have hsize : propBoxSize = 85 := rfl
  have hconf : readAt input ((b.offset ⟨h, w, a⟩ : ℤ) + 4) =
      some (input.getD (b.offset ⟨h, w, a⟩ + 4) 0) := readAt_add (k := 4) (by omega)
  unfold decodeCellF32
  simp only [offset_cast hgridW, hconf, maxClassF32_eq hscale hfit, decodeBox_eq hfit hanchor ha,
    Option.bind_eq_bind, Option.bind_some]
  by_cases hscore : b.threshold < b.score input ⟨h, w, a⟩
  · rw [if_pos hscore]
    exact if_pos hscore
  · rw [if_neg hscore]
    exact if_neg hscore

theorem processF32_eq {b : Branch} {input : List ℤ} (hgridW : 0 ≤ b.gridW) (hscale : 0 < b.scale)
    (hfits : b.Fits input) (hanchor : b.anchor.length = 6) (d : Candidates) :
    processF32 b input d = some (d.append (b.exactCandidates input)) := by
  have hloop : processF32 b input d =
      b.cells.foldlM (fun d c => decodeCellF32 b input c.row c.col d c.anchor) d := by
    unfold processF32 Branch.cells
    simp only [foldlM_flatMap, List.foldlM_map]
  rw [hloop]
  apply foldlM_append
  intro c hc d
  have ha := (mem_cells.mp hc).2.2
  rw [decodeCellF32_eq hgridW hscale (offset_lt hfits hc) hanchor ha]
  simp only [decide_eq_true_eq]

/-! ## The comparison never decides -/

theorem clip_le_of_lt {v : ℚ} {q : ℤ} (hq : -128 ≤ q ∧ q ≤ 127) (h : v < q) :
    clip v (-128) 127 ≤ q := by
  unfold clip
  by_cases hmin : v ≤ -128
  · have hsat : truncate (-128 : ℚ) = -128 := truncate_intCast (-128)
    rw [if_pos hmin, hsat]
    exact hq.1
  · rw [if_neg hmin]
    have hmax : ¬ v ≥ 127 := by
      intro hmax
      have hcast : (q : ℚ) ≤ 127 := by exact_mod_cast hq.2
      linarith
    rw [if_neg hmax]
    exact truncate_le_of_lt h

/-- All confidences and class values of the tensor lie between 0 and 1. -/
def Branch.UnitValues (b : Branch) (input : List ℤ) : Prop :=
  ∀ c ∈ b.cells, (0 ≤ b.confidence input c ∧ b.confidence input c ≤ 1) ∧
    ∀ k < objClassNum, 0 ≤ b.classProb input c k ∧ b.classProb input c k ≤ 1

section Prefilter

variable {b : Branch} {input : List ℤ}

theorem quantised_of_score (hscale : 0 < b.scale)
    (hbytes : ∀ q ∈ input, -128 ≤ q ∧ q ≤ 127) (hunit : b.UnitValues input) {c : Cell}
    (hc : c ∈ b.cells) (hfit : b.offset c + propBoxSize ≤ input.length)
    (hscore : b.threshold < b.score input c) :
    qntF32ToAffine b.threshold b.zp b.scale ≤ input.getD (b.offset c + 4) 0 := by
  obtain ⟨⟨hconf, -⟩, hclass⟩ := hunit c hc
  have hbest := hclass _ (firstMax_spec (fun k => input.getD (b.offset c + 5 + k) 0)
    (by decide : 0 < objClassNum)).lt
  have hle : b.score input c ≤ b.confidence input c :=
    mul_le_of_le_one_right hconf hbest.2
  have hlt : b.threshold < (input.getD (b.offset c + 4) 0 - b.zp) * b.scale :=
    hscore.trans_le hle
  have hquot : b.threshold / b.scale + b.zp < (input.getD (b.offset c + 4) 0 : ℤ) := by
    have := (div_lt_iff₀ hscale).mpr hlt
    linarith
  have hsize : propBoxSize = 85 := rfl
  apply clip_le_of_lt (hbytes _ _) hquot
  rw [List.getD_eq_getElem _ _ (by omega)]
  exact List.getElem_mem _

/-- **The pre-filter loses nothing.** -/
theorem prefilter_loses_nothing (hgridW : 0 ≤ b.gridW)
    (hlength : input.length = b.gridH.toNat * b.gridW.toNat * 255)
    (hanchor : b.anchor.length = 6) (hbytes : ∀ q ∈ input, -128 ≤ q ∧ q ≤ 127)
    (hscale : 0 < b.scale) (hunit : b.UnitValues input) (d : Candidates) :
    ∃ d', processI8Rv1106 b input d = some d' ∧ processF32 b input d = some d' ∧
      d'.toList = d.toList ++ b.exactCandidates input ∧
      ∀ c ∈ b.cells, IsFirstMax (b.classProb input c) objClassNum
        (bestClass input (b.offset c)) := by
  have hfits : b.Fits input := hlength.ge
  refine ⟨d.append (b.exactCandidates input), ?_, processF32_eq hgridW hscale hfits hanchor d,
    Candidates.toList_append d _, fun c _ => bestClass_isFirstMax hscale input c⟩
  have hfilter : b.candidates input = b.exactCandidates input := by
    unfold Branch.candidates Branch.exactCandidates
    congr 1
    apply List.filter_congr
    intro c hc
    rw [decide_eq_decide]
    constructor
    · exact fun hpasses => hpasses.2
    · exact fun hscore =>
        ⟨quantised_of_score hscale hbytes hunit hc (offset_lt hfits hc) hscore, hscore⟩
  rw [processI8Rv1106_eq hgridW hfits hanchor, hfilter]

end Prefilter

theorem unitValues_of_bytes {b : Branch} {input : List ℤ} (hzp : b.zp = -128)
    (hscale : b.scale = 1 / 255) (hbytes : ∀ q ∈ input, -128 ≤ q ∧ q ≤ 127) :
    b.UnitValues input := by
  have hvalue : ∀ n, 0 ≤ b.value input n ∧ b.value input n ≤ 1 := by
    intro n
    have hq : -128 ≤ input.getD n 0 ∧ input.getD n 0 ≤ 127 := by
      by_cases hn : n < input.length
      · rw [List.getD_eq_getElem _ _ hn]
        exact hbytes _ (List.getElem_mem hn)
      · rw [List.getD_eq_default _ _ (by omega)]
        decide
    have hlow : (-128 : ℚ) ≤ input.getD n 0 := by exact_mod_cast hq.1
    have hhigh : (input.getD n 0 : ℚ) ≤ 127 := by exact_mod_cast hq.2
    unfold Branch.value deqntAffineToF32
    rw [hzp, hscale]
    push_cast
    constructor <;> linarith
  exact fun c _ => ⟨hvalue _, fun k _ => hvalue _⟩

def oneCell : Branch where
  anchor := [10, 13, 16, 30, 33, 23]
  gridH := 1
  gridW := 1
  stride := 8
  threshold := 1 / 4
  zp := -128
  scale := 1 / 255

theorem prefilter_loses_nothing_oneCell :
    ∃ d', processI8Rv1106 oneCell (List.replicate 255 127) .empty = some d' ∧
      processF32 oneCell (List.replicate 255 127) .empty = some d' ∧
      d'.toList = Candidates.empty.toList ++ oneCell.exactCandidates (List.replicate 255 127) ∧
      ∀ c ∈ oneCell.cells, IsFirstMax (oneCell.classProb (List.replicate 255 127) c) objClassNum
        (bestClass (List.replicate 255 127) (oneCell.offset c)) := by
  have hbytes : ∀ q ∈ List.replicate 255 (127 : ℤ), -128 ≤ q ∧ q ≤ 127 := by
    intro q hq
    rw [List.eq_of_mem_replicate hq]
    decide
  have hlength : (List.replicate 255 (127 : ℤ)).length =
      oneCell.gridH.toNat * oneCell.gridW.toNat * 255 := by
    rw [List.length_replicate]
    rfl
  exact prefilter_loses_nothing (by decide) hlength rfl hbytes (by norm_num [oneCell])
    (unitValues_of_bytes rfl rfl hbytes) .empty

end CatDect.Postprocess
