import CatDect.ImageHandle.Tracking

/-!
# The region of the next frame

Runs of the main loop, as far as the tracking globals see them: every frame calls
`pollingdecetbox` and then `draw_result` with some result list.  The branch of
`draw_result` lags one frame behind its list, and `pollingdecetbox` replaces whatever
region it chose.
-/

namespace CatDect.ImageHandle

open CatDect.Support CatDect.Postprocess

/-! ## Runs -/

structure FrameInput where
  results : ObjectDetectResultList
  readings : ℕ → Reading

def mainFrame (g : Globals) (frame : FrameInput) : Option Globals := do
  let (g, _) ← pollingdecetbox g
  let st ← drawResult g frame.results frame.readings
  some st.globals

def mainFrames (frames : List FrameInput) : Option Globals :=
  frames.foldlM mainFrame (imageHanldeInit .static)

theorem mainFrames_spec (frames : List FrameInput) :
    ∃ g, mainFrames frames = some g ∧ Configured g := by
  apply foldlM_list_rule (fun _ g => Configured g) configured_init
  intro _ frame _ g _ hg
  obtain ⟨g₁, hcrop, hg₁, -⟩ := pollingdecetbox_spec hg
  obtain ⟨st, hdraw, hst, -⟩ := drawResult_spec hg₁.toConfigured frame.results frame.readings
  refine ⟨st.globals, ?_, hst⟩
  unfold mainFrame
  simp only [hcrop, hdraw, Option.bind_eq_bind, Option.bind_some]

/-- The globals on which `draw_result` is called after some frames. -/
def atDraw (frames : List FrameInput) : Option (Globals × Region) :=
  (mainFrames frames).bind pollingdecetbox

theorem atDraw_spec (frames : List FrameInput) :
    ∃ g, atDraw frames = some (g, cropRegion) ∧ Cropped g := by
  obtain ⟨g, hrun, hg⟩ := mainFrames_spec frames
  obtain ⟨g', hcrop, hg', -⟩ := pollingdecetbox_spec hg
  refine ⟨g', ?_, hg'⟩
  unfold atDraw
  rw [hrun, Option.bind_some, hcrop]

/-! ## The region against the current list -/

/-- The region left by a call of `draw_result` on `g` is the one its own list calls for. -/
def RegionFollows (g : Globals) (results : ObjectDetectResultList) (g' : Globals) : Prop :=
  if HasTarget results then
    g'.detectResult.regionSX =
      trackedRegion (midPos g'.detectResult.targetSX g'.detectResult.targetEX)
  else
    readAt posXDect.toList g.detectManage.pollingarea = some g'.detectResult.regionSX ∧
      g'.detectManage.pollingarea =
        (g.detectManage.pollingarea + 1) % g.detectManage.pollingareacnt

instance (g : Globals) (results : ObjectDetectResultList) (g' : Globals) :
    Decidable (RegionFollows g results g') := by
  unfold RegionFollows
  infer_instance

/-- **When the region follows the current list.**  In every reachable state: if list and
previous list agree on whether there is a target, or if the region due for polling happens
to be the one the new target calls for. -/
theorem regionFollows_iff (frames : List FrameInput) (results : ObjectDetectResultList)
    (readings : ℕ → Reading) :
    ∃ g roi st, atDraw frames = some (g, roi) ∧ drawResult g results readings = some st ∧
      (RegionFollows g results st.globals ↔
        (HasTarget results ∧ g.detectResult.targetHave ≠ 0) ∨
        (¬ HasTarget results ∧ g.detectResult.targetHave = 0) ∨
        (HasTarget results ∧ g.detectResult.targetHave = 0 ∧
          readAt posXDect.toList g.detectManage.pollingarea =
            some (trackedRegion (recordedMidPos g results)))) := by
  obtain ⟨g, hdraw, hg⟩ := atDraw_spec frames
  obtain ⟨st, hst, -, -, -, -, hmid, hpolling, htracking⟩ :=
    drawResult_spec hg.toConfigured results readings
  refine ⟨g, cropRegion, st, hdraw, hst, ?_⟩
  by_cases htarget : HasTarget results
  · rw [RegionFollows, if_pos htarget, hmid]
    by_cases hhave : g.detectResult.targetHave = 0
    · have hread := (hpolling hhave).1
      simp only [htarget, hhave, hread, ne_eq, not_true_eq_false, and_false, and_true, true_and,
        false_or, Option.some_inj]
    · have hregion := (htracking hhave).1
      simp only [htarget, hhave, hregion, ne_eq, not_false_eq_true, and_self, true_or]
  · rw [RegionFollows, if_neg htarget]
    by_cases hhave : g.detectResult.targetHave = 0
    · obtain ⟨hread, harea⟩ := hpolling hhave
      simp only [htarget, hhave, hread, harea, hg.pollingareacnt_eq, not_false_eq_true, and_self,
        true_or, or_true]
    · have harea := (htracking hhave).2
      have hne : g.detectManage.pollingarea ≠ (g.detectManage.pollingarea + 1) % 3 := by
        have := hg.pollingarea_mem
        omega
      rw [harea, hg.pollingareacnt_eq]
      simp only [htarget, hhave, hne, and_false, false_and, or_self]

def singleResult (e : ObjectDetectResult) : ObjectDetectResultList where
  id := 0
  count := 1
  results := ObjectDetectResultList.zero.results.set 0 e (by decide)
  count_le := by decide

def catInView : ObjectDetectResultList :=
  singleResult { box := { left := 300, top := 300, right := 400, bottom := 400 }
                 prop := 4 / 5
                 clsId := 15 }

theorem first_cat_keeps_polling :
    ∃ g roi st, atDraw [] = some (g, roi) ∧
      drawResult g catInView (fun _ => ⟨0, 0, 1⟩) = some st ∧
      ¬ RegionFollows g catInView st.globals :=
  ⟨_, _, _, rfl, rfl, by decide +kernel⟩

/-! ## The region against the frame -/

def cropOffset (inputs : ℕ → FrameInput) (n : ℕ) : Option ℤ :=
  (atDraw ((List.range n).map inputs)).map fun cropped => cropped.2.x

def CoversFrame (inputs : ℕ → FrameInput) (k : ℕ) : Prop :=
  ∀ x ∈ posXDect.toList, ∃ n, k < n ∧ n ≤ k + 4 ∧ cropOffset inputs n = some x

def NothingInView (inputs : ℕ → FrameInput) (k : ℕ) : Prop :=
  ∀ n, k ≤ n → n ≤ k + 3 → ¬ HasTarget (inputs n).results

theorem cropOffset_eq (inputs : ℕ → FrameInput) (n : ℕ) : cropOffset inputs n = some 420 := by
  obtain ⟨g, hdraw, -⟩ := atDraw_spec ((List.range n).map inputs)
  unfold cropOffset
  rw [hdraw]
  rfl

/-- **Polling never covers the frame.**  Whatever the lists show, every frame of every run
is cropped at the middle region. -/
theorem polling_never_covers (inputs : ℕ → FrameInput) (k : ℕ) : ¬ CoversFrame inputs k := by
  intro hcovers
  obtain ⟨n, -, -, hn⟩ := hcovers 0 (by decide)
  rw [cropOffset_eq] at hn
  exact absurd hn (by decide)

def emptyRun : ℕ → FrameInput := fun _ => { results := .zero, readings := fun _ => ⟨0, 0, 1⟩ }

theorem emptyRun_not_covered : NothingInView emptyRun 0 ∧ ¬ CoversFrame emptyRun 0 := by
  have hnone : ¬ HasTarget ObjectDetectResultList.zero := by decide
  constructor
  · exact fun _ _ _ => hnone
  · intro hcovers
    obtain ⟨n, -, -, hn⟩ := hcovers 0 (by decide)
    rw [cropOffset_eq] at hn
    exact absurd hn (by decide)

end CatDect.ImageHandle
