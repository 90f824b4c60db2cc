import CatDect.Postprocess.Select

/-!
# Decoding of the output tensors

The first half of `post_process` in the RV1106 build: three calls of
`process_i8_rv1106`, one for each output tensor, append the accepted cells to the
candidate vectors.  `postProcess_wellFormed` states what every accepted cell and every
reported entry satisfies.
-/

namespace CatDect.Postprocess

open CatDect.Support

/-! ## The code -/

def anchor : List (List ℤ) :=
  [[10, 13, 16, 30, 33, 23], [30, 61, 62, 45, 59, 119], [116, 90, 156, 198, 373, 326]]

/-- `__clip`; the value is truncated because the function returns an `int32_t`. -/
def clip (val min max : ℚ) : ℤ :=
  let f := if val ≤ min then min else if val ≥ max then max else val
  truncate f

def qntF32ToAffine (f32 : ℚ) (zp : ℤ) (scale : ℚ) : ℤ := clip (f32 / scale + zp) (-128) 127

def deqntAffineToF32 (qnt zp : ℤ) (scale : ℚ) : ℚ := (qnt - zp) * scale

/-- The class loop of a cell whose bytes start at `hwOffset`: `maxClassProbs` and
`maxClassId`. -/
def maxClass (input : List ℤ) (hwOffset : ℤ) : Option (ℤ × ℕ) := do
  let first ← readAt input (hwOffset + 5)
  (List.range' 1 (objClassNum - 1)).foldlM (fun best (k : ℕ) => do
    let prob ← readAt input (hwOffset + 5 + k)
    some (if prob > best.1 then (prob, k) else best)) (first, 0)

structure Branch where
  anchor : List ℤ
  gridH : ℤ
  gridW : ℤ
  stride : ℤ
  threshold : ℚ
  zp : ℤ
  scale : ℚ

def decodeBox (b : Branch) (input : List ℤ) (hwOffset : ℤ) (h w a : ℕ) (score : ℚ) (cls : ℤ) :
    Option Candidate := do
  let q0 ← readAt input hwOffset
  let q1 ← readAt input (hwOffset + 1)
  let q2 ← readAt input (hwOffset + 2)
  let q3 ← readAt input (hwOffset + 3)
  let anchorW ← readAt b.anchor (a * 2)
  let anchorH ← readAt b.anchor (a * 2 + 1)
  let boxX := deqntAffineToF32 q0 b.zp b.scale * 2 - 1 / 2
  let boxY := deqntAffineToF32 q1 b.zp b.scale * 2 - 1 / 2
  let boxW := deqntAffineToF32 q2 b.zp b.scale * 2
  let boxH := deqntAffineToF32 q3 b.zp b.scale * 2
  let boxW := boxW * boxW
  let boxH := boxH * boxH
  let boxX := (boxX + w) * b.stride
  let boxY := (boxY + h) * b.stride
  let boxW := boxW * anchorW
  let boxH := boxH * anchorH
  some { x := boxX - boxW / 2, y := boxY - boxH / 2, w := boxW, h := boxH, score := score,
         cls := cls }

/-- The body of the loops of `process_i8_rv1106`. -/
def decodeCell (b : Branch) (input : List ℤ) (h w : ℕ) (d : Candidates) (a : ℕ) :
    Option Candidates := do
  let thresI8 := qntF32ToAffine b.threshold b.zp b.scale
  let alignC : ℤ := propBoxSize * 3
  let hwOffset := h * b.gridW * alignC + w * alignC + a * propBoxSize
  let boxConfidence ← readAt input (hwOffset + 4)
  if boxConfidence ≥ thresI8 then do
    let (maxClassProbs, maxClassId) ← maxClass input hwOffset
    let boxConfF32 := deqntAffineToF32 boxConfidence b.zp b.scale
    let classProbF32 := deqntAffineToF32 maxClassProbs b.zp b.scale
    let limitScore := boxConfF32 * classProbF32
    if limitScore > b.threshold then do
      let c ← decodeBox b input hwOffset h w a limitScore maxClassId
      some (d.push c)
    else some d
  else some d

/-- `process_i8_rv1106`; its return value is the growth of `validCount`. -/
def processI8Rv1106 (b : Branch) (input : List ℤ) (d : Candidates) : Option Candidates :=
  (List.range b.gridH.toNat).foldlM (fun d h =>
    (List.range b.gridW.toNat).foldlM (fun d w =>
      (List.range 3).foldlM (decodeCell b input h w) d) d) d

/-- The fields of `rknn_tensor_attr` that `post_process` reads. -/
structure TensorAttr where
  dims : List ℤ
  zp : ℤ
  scale : ℚ

/-- The fields of `rknn_app_context_t` that `post_process` reads. -/
structure AppContext where
  outputAttrs : List TensorAttr
  modelWidth : ℤ
  modelHeight : ℤ
  isQuant : Bool

def decodeOutput (ctx : AppContext) (outputs : List (List ℤ)) (confThreshold : ℚ)
    (d : Candidates) (i : ℕ) : Option Candidates := do
  let attr ← ctx.outputAttrs[i]?
  let gridH ← attr.dims[2]?
  let gridW ← attr.dims[1]?
  if gridH = 0 then none
  else if ctx.isQuant then do
    let input ← outputs[i]?
    let anchor ← anchor[i]?
    processI8Rv1106
      { anchor := anchor, gridH := gridH, gridW := gridW,
        stride := ctx.modelHeight.tdiv gridH, threshold := confThreshold, zp := attr.zp,
        scale := attr.scale } input d
  else some d

/-- `post_process` of the RV1106 build; `none` stands for an access out of range or a
division by zero. -/
def postProcess (ctx : AppContext) (outputs : List (List ℤ)) (confThreshold nmsThreshold : ℚ) :
    Option ObjectDetectResultList := do
  let d ← (List.range 3).foldlM (decodeOutput ctx outputs confThreshold) .empty
  postProcessSelect d nmsThreshold ctx.modelWidth ctx.modelHeight

/-! ## What every accepted cell satisfies -/

theorem deqntAffineToF32_lt {zp : ℤ} {scale : ℚ} (hscale : 0 < scale) {p q : ℤ} (hpq : p < q) :
    deqntAffineToF32 p zp scale < deqntAffineToF32 q zp scale := by
  unfold deqntAffineToF32
  have hcast : (p : ℚ) < q := by exact_mod_cast hpq
  exact mul_lt_mul_of_pos_right (by linarith) hscale

structure Candidate.WellFormed (threshold : ℚ) (c : Candidate) : Prop where
  w_nonneg : 0 ≤ c.w
  h_nonneg : 0 ≤ c.h
  cls_mem : 0 ≤ c.cls ∧ c.cls < objClassNum
  score_gt : threshold < c.score

theorem maxClass_lt {input : List ℤ} {hwOffset prob : ℤ} {cls : ℕ}
    (h : maxClass input hwOffset = some (prob, cls)) : cls < objClassNum := by
  obtain ⟨first, -, hfold⟩ := Option.bind_eq_some_iff.mp h
  have hmem : ∀ k ∈ List.range' 1 (objClassNum - 1), k < objClassNum := by decide
  revert hfold hmem
  generalize hbest : (first, 0) = best
  have hlt : best.2 < objClassNum := hbest ▸ (by decide : 0 < objClassNum)
  clear hbest
  generalize List.range' 1 (objClassNum - 1) = ks
  intro hfold hmem
  induction ks generalizing best with
  | nil =>
      have hsame := Option.some.inj hfold
      subst hsame
      exact hlt
  | cons k ks ih =>
      rw [List.foldlM_cons] at hfold
      obtain ⟨best', hbest', hrest⟩ := Option.bind_eq_some_iff.mp hfold
      obtain ⟨p, -, hp⟩ := Option.bind_eq_some_iff.mp hbest'
      apply ih best' _ hrest fun j hj => hmem j (List.mem_cons_of_mem _ hj)
      rw [← Option.some.inj hp]
      split
      · exact hmem k (by simp)
      · exact hlt

section Decode

variable {b : Branch} {input : List ℤ} {h w a : ℕ} {d d' : Candidates}

theorem decodeBox_wellFormed (hanchor : ∀ x ∈ b.anchor, 0 ≤ x) {hwOffset : ℤ} {score : ℚ}
    {cls : ℤ} (hscore : b.threshold < score) (hcls : 0 ≤ cls ∧ cls < objClassNum) {c : Candidate}
    (hbox : decodeBox b input hwOffset h w a score cls = some c) :
    c.WellFormed b.threshold := by
  simp only [decodeBox, Option.bind_eq_bind, Option.bind_eq_some_iff] at hbox
  obtain ⟨q0, -, q1, -, q2, -, q3, -, anchorW, hW, anchorH, hH, hc⟩ := hbox
  have hsame := Option.some.inj hc
  subst hsame
  have hnonneg : ∀ {i x : ℤ}, readAt b.anchor i = some x → (0 : ℚ) ≤ x := by
    intro i x hx
    exact_mod_cast hanchor x (mem_of_readAt hx)
  constructor
  · exact mul_nonneg (mul_self_nonneg _) (hnonneg hW)
  · exact mul_nonneg (mul_self_nonneg _) (hnonneg hH)
  · exact hcls
  · exact hscore

theorem decodeCell_cases (hanchor : ∀ x ∈ b.anchor, 0 ≤ x)
    (hcell : decodeCell b input h w d a = some d') :
    d' = d ∨ ∃ c, d' = d.push c ∧ c.WellFormed b.threshold := by
  obtain ⟨boxConfidence, -, hcell⟩ := Option.bind_eq_some_iff.mp hcell
  split at hcell
  · obtain ⟨⟨prob, cls⟩, hmax, hcell⟩ := Option.bind_eq_some_iff.mp hcell
    dsimp only at hcell
    split at hcell
    · rename_i hscore
      obtain ⟨c, hbox, hpush⟩ := Option.bind_eq_some_iff.mp hcell
      have hcls : (0 : ℤ) ≤ cls ∧ (cls : ℤ) < objClassNum :=
        ⟨Int.natCast_nonneg _, by exact_mod_cast maxClass_lt hmax⟩
      exact .inr ⟨c, (Option.some.inj hpush).symm, decodeBox_wellFormed hanchor hscore hcls hbox⟩
    · exact .inl (Option.some.inj hcell).symm
  · exact .inl (Option.some.inj hcell).symm

theorem processI8Rv1106_wellFormed (hanchor : ∀ x ∈ b.anchor, 0 ≤ x)
    (hd : ∀ c ∈ d.toList, c.WellFormed b.threshold)
    (hrun : processI8Rv1106 b input d = some d') :
    ∀ c ∈ d'.toList, c.WellFormed b.threshold := by
  have hcell : ∀ (h w : ℕ) (d₁ : Candidates) (a : ℕ) (d₂ : Candidates),
      decodeCell b input h w d₁ a = some d₂ → (∀ c ∈ d₁.toList, c.WellFormed b.threshold) →
      ∀ c ∈ d₂.toList, c.WellFormed b.threshold := by
    intro h w d₁ a d₂ hcell hd₁
    rcases decodeCell_cases hanchor hcell with rfl | ⟨c, rfl, hc⟩
    · exact hd₁
    · rw [Candidates.toList_push]
      intro c' hc'
      rcases List.mem_append.mp hc' with hold | hnew
      · exact hd₁ c' hold
      · rw [List.mem_singleton.mp hnew]
        exact hc
  let I : Candidates → Prop := fun d => ∀ c ∈ d.toList, c.WellFormed b.threshold
  apply foldlM_invariant I hrun hd
  intro d₁ h d₂ hrow hd₁
  apply foldlM_invariant I hrow hd₁
  intro d₁ w d₂ hcol hd₁
  exact foldlM_invariant I hcol hd₁ (hcell h w)

end Decode

theorem anchor_nonneg : ∀ row ∈ anchor, ∀ x ∈ row, 0 ≤ x := by decide

theorem decode_wellFormed {ctx : AppContext} {outputs : List (List ℤ)} {confThreshold : ℚ}
    {d : Candidates}
    (hrun : (List.range 3).foldlM (decodeOutput ctx outputs confThreshold) .empty = some d) :
    ∀ c ∈ d.toList, c.WellFormed confThreshold := by
  apply foldlM_invariant (fun d => ∀ c ∈ d.toList, c.WellFormed confThreshold) hrun
    (fun c hc => absurd hc List.not_mem_nil)
  intro d₁ i d₂ hout hd₁
  simp only [decodeOutput, Option.bind_eq_bind, Option.bind_eq_some_iff] at hout
  obtain ⟨attr, -, gridH, -, gridW, -, hout⟩ := hout
  split at hout
  · exact absurd hout (by simp)
  · split at hout
    · simp only [Option.bind_eq_some_iff] at hout
      obtain ⟨input, -, row, hrow, hproc⟩ := hout
      exact processI8Rv1106_wellFormed (anchor_nonneg row (List.mem_of_getElem? hrow)) hd₁ hproc
    · rw [← Option.some.inj hout]
      exact hd₁

structure ImageRect.Inside (modelWidth modelHeight : ℤ) (box : ImageRect) : Prop where
  left_nonneg : 0 ≤ box.left
  left_le : box.left ≤ box.right
  right_le : box.right ≤ modelWidth
  top_nonneg : 0 ≤ box.top
  top_le : box.top ≤ box.bottom
  bottom_le : box.bottom ≤ modelHeight

theorem Candidate.WellFormed.report_inside {threshold : ℚ} {c : Candidate}
    (h : c.WellFormed threshold) {modelWidth modelHeight : ℤ} (hw : 0 ≤ modelWidth)
    (hh : 0 ≤ modelHeight) :
    (c.report modelWidth modelHeight).box.Inside modelWidth modelHeight where
  left_nonneg := (clamp_mem hw).1
  left_le := clamp_mono hw (le_add_of_nonneg_right h.w_nonneg)
  right_le := (clamp_mem hw).2
  top_nonneg := (clamp_mem hh).1
  top_le := clamp_mono hh (le_add_of_nonneg_right h.h_nonneg)
  bottom_le := (clamp_mem hh).2

/-- **Reported entries are well formed.**  Each is the report of a well-formed candidate. -/
theorem postProcess_wellFormed {ctx : AppContext} {outputs : List (List ℤ)}
    {confThreshold nmsThreshold : ℚ} {r : ObjectDetectResultList}
    (hrun : postProcess ctx outputs confThreshold nmsThreshold = some r) :
    ∀ e ∈ r.reported, ∃ c : Candidate, c.WellFormed confThreshold ∧
      e = c.report ctx.modelWidth ctx.modelHeight := by
  classical
  obtain ⟨d, hdecode, hselect⟩ := Option.bind_eq_some_iff.mp hrun
  obtain ⟨_, _, _, r', -, -, hselect', hrank, -, -, hreported, -⟩ :=
    postProcessSelect_spec d nmsThreshold ctx.modelWidth ctx.modelHeight
  have hsame := Option.some.inj (hselect.symm.trans hselect')
  subst hsame
  intro e he
  rw [hreported, List.mem_map] at he
  obtain ⟨k, hk, rfl⟩ := he
  have hlt := (mem_firstRanks.mp hk).1
  exact ⟨_, decode_wellFormed hdecode _ (Candidates.candidate_mem_toList (hrank.rank_lt k hlt)),
    rfl⟩

end CatDect.Postprocess
