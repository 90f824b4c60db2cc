import CatDect.Postprocess.Cells

/-!
# What a call of `post_process` returns

On output tensors of the sizes that their attributes give, `post_process` makes no access
out of range, whatever the bytes are, and its result list satisfies what `draw_result` and
the loop over its entries rely on.
-/

namespace CatDect.Postprocess

open CatDect.Support

/-- The three output tensors are as large as their attributes say. -/
def Sized (ctx : AppContext) (outputs : List (List ℤ)) : Prop :=
  ∀ i < 3, ∃ attr input gridH gridW, ctx.outputAttrs[i]? = some attr ∧
    outputs[i]? = some input ∧ attr.dims[2]? = some gridH ∧ attr.dims[1]? = some gridW ∧
    0 < gridH ∧ 0 ≤ gridW ∧ input.length = gridH.toNat * gridW.toNat * 255

theorem anchor_row {i : ℕ} (hi : i < 3) : ∃ row, anchor[i]? = some row ∧ row.length = 6 := by
  obtain rfl | rfl | rfl : i = 0 ∨ i = 1 ∨ i = 2 := by omega
  · exact ⟨_, rfl, rfl⟩
  · exact ⟨_, rfl, rfl⟩
  · exact ⟨_, rfl, rfl⟩

section Sized

variable {ctx : AppContext} {outputs : List (List ℤ)}

theorem Sized.decodeOutput (h : Sized ctx outputs) (confThreshold : ℚ) {i : ℕ} (hi : i < 3)
    (d : Candidates) : ∃ d', decodeOutput ctx outputs confThreshold d i = some d' := by
  obtain ⟨attr, input, gridH, gridW, hattr, hinput, hH, hW, hpos, hnonneg, hlength⟩ := h i hi
  obtain ⟨row, hrow, hanchor⟩ := anchor_row hi
  unfold Postprocess.decodeOutput
  simp only [hattr, hinput, hH, hW, hrow, Option.bind_eq_bind, Option.bind_some,
    if_neg hpos.ne']
  by_cases hquant : ctx.isQuant
  · rw [if_pos hquant]
    have hfits : gridH.toNat * gridW.toNat * (propBoxSize * 3) ≤ input.length := hlength.ge
    exact ⟨_, processI8Rv1106_eq (b := ⟨row, gridH, gridW, _, _, _, _⟩) hnonneg hfits hanchor d⟩
  · rw [if_neg hquant]
    exact ⟨d, rfl⟩

theorem Sized.decode (h : Sized ctx outputs) (confThreshold : ℚ) :
    ∃ d, (List.range 3).foldlM (Postprocess.decodeOutput ctx outputs confThreshold) .empty =
      some d := by
  apply foldlM_total
  intro i hi d
  exact h.decodeOutput confThreshold (List.mem_range.mp hi) d

/-- **Well-formed results.**  The list is as long as its table allows, its boxes lie in the
model image with their corners in order, its classes exist and its scores exceed the
threshold. -/
theorem postProcess_results (h : Sized ctx outputs) (hw : 0 ≤ ctx.modelWidth)
    (hh : 0 ≤ ctx.modelHeight) (confThreshold nmsThreshold : ℚ) :
    ∃ r, postProcess ctx outputs confThreshold nmsThreshold = some r ∧
      0 ≤ r.count ∧ r.count ≤ 128 ∧ (r.reported.length : ℤ) = r.count ∧
      ∀ e ∈ r.reported, e.box.Inside ctx.modelWidth ctx.modelHeight ∧
        (0 ≤ e.clsId ∧ e.clsId < 80) ∧ confThreshold < e.prop := by
  classical
  obtain ⟨d, hdecode⟩ := h.decode confThreshold
  obtain ⟨_, _, _, r, -, -, hselect, -, -, -, -, hfresh⟩ :=
    postProcessSelect_spec d nmsThreshold ctx.modelWidth ctx.modelHeight
  have hrun : postProcess ctx outputs confThreshold nmsThreshold = some r := by
    unfold postProcess
    rw [hdecode]
    exact hselect
  refine ⟨r, hrun, hfresh.count_nonneg, r.count_le,
    ObjectDetectResultList.reported_length hfresh.count_nonneg, ?_⟩
  intro e he
  obtain ⟨c, hc, rfl⟩ := postProcess_wellFormed hrun e he
  exact ⟨hc.report_inside hw hh, hc.cls_mem, hc.score_gt⟩

end Sized

def onePositionContext : AppContext where
  outputAttrs := List.replicate 3 { dims := [1, 1, 1, 255], zp := -128, scale := 1 / 255 }
  modelWidth := 640
  modelHeight := 640
  isQuant := true

theorem postProcess_results_onePosition :
    ∃ r, postProcess onePositionContext (List.replicate 3 (List.replicate 255 127)) (1 / 4)
        (9 / 20) = some r ∧
      0 ≤ r.count ∧ r.count ≤ 128 ∧ (r.reported.length : ℤ) = r.count ∧
      ∀ e ∈ r.reported, e.box.Inside onePositionContext.modelWidth onePositionContext.modelHeight ∧
        (0 ≤ e.clsId ∧ e.clsId < 80) ∧ 1 / 4 < e.prop := by
  have hsized : Sized onePositionContext (List.replicate 3 (List.replicate 255 127)) := by
    intro i hi
    obtain rfl | rfl | rfl : i = 0 ∨ i = 1 ∨ i = 2 := by omega
    all_goals exact ⟨_, _, 1, 1, rfl, rfl, rfl, rfl, by decide, by decide, List.length_replicate⟩
  exact postProcess_results hsized (by decide) (by decide) (1 / 4) (9 / 20)

end CatDect.Postprocess
