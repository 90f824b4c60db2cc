import CatDect.ImageHandle.RegionSelection

/-!
# The state of the region

`pollingarea` and `region_sX` are written by `image_hanlde_init`, `pollingdecetbox` and
`draw_result`.  In every state the three can reach the region is one of the three of
`pos_x_dect`, whatever lists are drawn; and where the tracking branch chooses it, the
thresholds of `pos_mid_dect` keep a target in view that is no wider than 660 pixels.
-/

namespace CatDect.ImageHandle

open CatDect.Support CatDect.Postprocess

/-! ## Tracking -/

theorem midPos_of_interval {s e : ℤ} (hs : 0 ≤ s) (hse : s ≤ e) (he : e ≤ rawImageWidth) :
    midPos s e = (e - s) / 2 + s := by
  unfold rawImageWidth at he
  unfold midPos
  rw [Int.tdiv_eq_ediv_of_nonneg (by omega)]
  exact Int.emod_eq_of_lt (by omega) (by omega)

theorem trackedRegion_cases (mid : ℤ) :
    (mid < 750 ∧ trackedRegion mid = 0) ∨ (750 ≤ mid ∧ mid < 1170 ∧ trackedRegion mid = 420) ∨
      (1170 ≤ mid ∧ trackedRegion mid = 840) := by
  have hfirst : posMidDect[0] = 750 := rfl
  have hsecond : posMidDect[1] = 1170 := rfl
  unfold trackedRegion
  rw [hfirst, hsecond]
  by_cases hleft : mid < 750
  · rw [if_pos hleft]
    exact .inl ⟨hleft, rfl⟩
  · rw [if_neg hleft]
    by_cases hmiddle : mid < 1170
    · rw [if_pos hmiddle]
      exact .inr (.inl ⟨not_lt.mp hleft, hmiddle, rfl⟩)
    · rw [if_neg hmiddle]
      exact .inr (.inr ⟨not_lt.mp hmiddle, rfl⟩)

def regionCrop (regionSX : ℤ) : Region := { x := regionSX, y := 0, width := 1080, height := 1080 }

/-- The crop lies in the frame, and the interval in the crop. -/
structure KeepsInView (s e regionSX : ℤ) : Prop where
  left_le : regionSX ≤ s
  le_right : e ≤ regionSX + 1080
  inFrame : (regionCrop regionSX).InFrame

theorem trackedRegion_keepsInView {s e : ℤ} (hs : 0 ≤ s) (hse : s ≤ e) (he : e ≤ rawImageWidth)
    (hwidth : e - s ≤ 660) : KeepsInView s e (trackedRegion (midPos s e)) := by
  have hmid := midPos_of_interval hs hse he
  unfold rawImageWidth at he
  rcases trackedRegion_cases (midPos s e) with ⟨hlt, hx⟩ | ⟨hge, hlt, hx⟩ | ⟨hge, hx⟩
  · rw [hx]
    exact ⟨by omega, by omega, by decide⟩
  · rw [hx]
    exact ⟨by omega, by omega, by decide⟩
  · rw [hx]
    exact ⟨by omega, by omega, by decide⟩

/-- **Tracking keeps the target in view.**  A call that takes the tracking branch chooses
its region by the target interval that it leaves. -/
theorem tracking_keeps_target (g : Globals) (results : ObjectDetectResultList)
    (readings : ℕ → Reading) (htracking : g.detectResult.targetHave ≠ 0) :
    ∃ st, drawResult g results readings = some st ∧
      (0 ≤ st.globals.detectResult.targetSX →
        st.globals.detectResult.targetSX ≤ st.globals.detectResult.targetEX →
        st.globals.detectResult.targetEX ≤ rawImageWidth →
        st.globals.detectResult.targetEX - st.globals.detectResult.targetSX ≤ 660 →
        KeepsInView st.globals.detectResult.targetSX st.globals.detectResult.targetEX
          st.globals.detectResult.regionSX) := by
  have hloop := drawLoop_spec g results readings
  rw [← hloop.mapping.targetHave_eq] at htracking
  unfold drawResult selectRegion
  simp only [if_neg htracking, Option.bind_eq_bind, Option.bind_some]
  exact ⟨_, rfl, fun hs hse he hwidth => trackedRegion_keepsInView hs hse he hwidth⟩

def trackingGlobals : Globals :=
  { Globals.static with
    detectResult :=
      { Globals.static.detectResult with targetSX := 750, targetEX := 1410, targetHave := 1 } }

theorem tracking_keeps_target_trackingGlobals :
    ∃ st, drawResult trackingGlobals .zero (fun _ => ⟨0, 0, 1⟩) = some st ∧
      (0 ≤ st.globals.detectResult.targetSX →
        st.globals.detectResult.targetSX ≤ st.globals.detectResult.targetEX →
        st.globals.detectResult.targetEX ≤ rawImageWidth →
        st.globals.detectResult.targetEX - st.globals.detectResult.targetSX ≤ 660 →
        KeepsInView st.globals.detectResult.targetSX st.globals.detectResult.targetEX
          st.globals.detectResult.regionSX) :=
  tracking_keeps_target trackingGlobals .zero _ (by decide)

/-! ## Every reachable state -/

inductive RegionCall where
  | poll
  | draw (results : ObjectDetectResultList) (readings : ℕ → Reading)

def regionCall (g : Globals) : RegionCall → Option Globals
  | .poll => (pollingdecetbox g).map Prod.fst
  | .draw results readings => (drawResult g results readings).map DrawState.globals

def regionCalls (calls : List RegionCall) : Option Globals :=
  calls.foldlM regionCall (imageHanldeInit .static)

structure RegionState (g : Globals) : Prop extends Configured g where
  regionSX_mem : g.detectResult.regionSX = 0 ∨ g.detectResult.regionSX = 420 ∨
    g.detectResult.regionSX = 840

theorem regionState_init : RegionState (imageHanldeInit .static) := ⟨configured_init, .inl rfl⟩

section RegionState

variable {g : Globals}

theorem RegionState.pollingarea_cases (h : RegionState g) :
    g.detectManage.pollingarea = 0 ∨ g.detectManage.pollingarea = 1 ∨
      g.detectManage.pollingarea = 2 := by
  have := h.pollingarea_mem
  omega

theorem RegionState.crop_inFrame (h : RegionState g) :
    (regionCrop g.detectResult.regionSX).InFrame := by
  rcases h.regionSX_mem with hx | hx | hx
  · rw [hx]
    decide
  · rw [hx]
    decide
  · rw [hx]
    decide

theorem readAt_posXDect_mem {area x : ℤ} (h : readAt posXDect.toList area = some x) :
    x = 0 ∨ x = 420 ∨ x = 840 := by
  have hmem := mem_of_readAt h
  have hlist : posXDect.toList = [0, 420, 840] := rfl
  rw [hlist] at hmem
  simpa using hmem

theorem RegionState.poll (h : RegionState g) :
    ∃ g', pollingdecetbox g = some (g', cropRegion) ∧ RegionState g' := by
  obtain ⟨g', hcrop, hg', -⟩ := pollingdecetbox_spec h.toConfigured
  exact ⟨g', hcrop, hg'.toConfigured, .inr (.inl hg'.regionSX_eq)⟩

theorem RegionState.draw (h : RegionState g) (results : ObjectDetectResultList)
    (readings : ℕ → Reading) :
    ∃ st, drawResult g results readings = some st ∧ RegionState st.globals := by
  obtain ⟨st, hdraw, hst, -, -, -, -, hpolling, htracking⟩ :=
    drawResult_spec h.toConfigured results readings
  refine ⟨st, hdraw, hst, ?_⟩
  by_cases hhave : g.detectResult.targetHave = 0
  · exact readAt_posXDect_mem (hpolling hhave).1
  · rw [(htracking hhave).1]
    rcases trackedRegion_cases (recordedMidPos g results) with ⟨-, hx⟩ | ⟨-, -, hx⟩ | ⟨-, hx⟩
    · exact .inl hx
    · exact .inr (.inl hx)
    · exact .inr (.inr hx)

theorem RegionState.call (h : RegionState g) (call : RegionCall) :
    ∃ g', regionCall g call = some g' ∧ RegionState g' := by
  cases call with
  | poll =>
      obtain ⟨g', hcrop, hg'⟩ := h.poll
      exact ⟨g', by rw [regionCall, hcrop]; rfl, hg'⟩
  | draw results readings =>
      obtain ⟨st, hdraw, hst⟩ := h.draw results readings
      exact ⟨st.globals, by rw [regionCall, hdraw]; rfl, hst⟩

end RegionState

/-- **The region state.**  No sequence of calls is cut short by an `assert` or an access out
of range, and in the state it reaches the next call is not either. -/
theorem regionState_reachable (calls : List RegionCall) :
    ∃ g, regionCalls calls = some g ∧
      (g.detectManage.pollingarea = 0 ∨ g.detectManage.pollingarea = 1 ∨
        g.detectManage.pollingarea = 2) ∧
      (g.detectResult.regionSX = 0 ∨ g.detectResult.regionSX = 420 ∨
        g.detectResult.regionSX = 840) ∧
      (regionCrop g.detectResult.regionSX).InFrame ∧
      (∃ g' roi, pollingdecetbox g = some (g', roi) ∧ roi.InFrame) ∧
      (∃ x, readAt posXDect.toList g.detectManage.pollingarea = some x) ∧
      ∀ results readings, ∃ st, drawResult g results readings = some st := by
  obtain ⟨g, hrun, hg⟩ := foldlM_list_rule (l := calls) (f := regionCall)
    (s := imageHanldeInit .static) (fun _ g => RegionState g) regionState_init
    (fun _ call _ _ _ hg => hg.call call)
  obtain ⟨g', hcrop, -⟩ := hg.poll
  obtain ⟨x, hread, -⟩ := posXDect_readAt hg.pollingarea_mem
  refine ⟨g, hrun, hg.pollingarea_cases, hg.regionSX_mem, hg.crop_inFrame,
    ⟨g', cropRegion, hcrop, by decide⟩, ⟨x, hread⟩, ?_⟩
  intro results readings
  obtain ⟨st, hdraw, -⟩ := hg.draw results readings
  exact ⟨st, hdraw⟩

end CatDect.ImageHandle
