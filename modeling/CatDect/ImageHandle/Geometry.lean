import CatDect.Support.Truncate
import Mathlib.Tactic.NormNum

/-!
# Crop, letterbox and the way back

The coordinate globals of `image_handle.cc` and the three functions that set up and
invert the mapping from the camera frame to the model image.  Scales are exact
rationals.  The pixels are not part of this file.
-/

namespace CatDect.ImageHandle

open CatDect.Support

/-! ## The globals -/

def rawImageWidth : ℤ := 1920

def rawImageHeight : ℤ := 1080

structure DetManage where
  srolWidth : ℤ
  srolHeight : ℤ
  modelWidth : ℤ
  modelHeight : ℤ
  scale : ℚ
  pollingarea : ℤ
  pollingareacnt : ℤ

structure DectRet where
  leftPadding : ℤ
  topPadding : ℤ
  targetSX : ℤ
  targetEX : ℤ
  regionSX : ℤ
  sX : ℤ
  sY : ℤ
  eX : ℤ
  eY : ℤ
  targetHave : ℤ

/-- The globals that `pollingdecetbox` and `draw_result` share; `usecondLe` is a `u32`. -/
structure Globals where
  detectManage : DetManage
  detectResult : DectRet
  catDected : ℕ
  usecondLe : ℤ

def Globals.static : Globals where
  detectManage :=
    { srolWidth := 1080, srolHeight := 1080, modelWidth := 640, modelHeight := 640,
      scale := 0, pollingarea := 0, pollingareacnt := 3 }
  detectResult :=
    { leftPadding := 0, topPadding := 0, targetSX := 0, targetEX := 0, regionSX := 0,
      sX := 0, sY := 0, eX := 0, eY := 0, targetHave := 0 }
  catDected := 0
  usecondLe := 0

def imageHanldeInit (g : Globals) : Globals :=
  { g with
    detectResult := { g.detectResult with regionSX := 0 }
    detectManage := { g.detectManage with pollingarea := 0 } }

/-! ## The code -/

/-- What `letterbox` computes before it touches a pixel. -/
structure LetterboxGeometry where
  scale : ℚ
  inputWidth : ℤ
  inputHeight : ℤ
  leftPadding : ℤ
  topPadding : ℤ

def letterboxGeometry (modelWidth modelHeight iwidth iheight : ℤ) : LetterboxGeometry :=
  let scaleX : ℚ := modelWidth / iwidth
  let scaleY : ℚ := modelHeight / iheight
  let scale := if scaleX < scaleY then scaleX else scaleY
  let inputWidth := truncate (iwidth * scale)
  let inputHeight := truncate (iheight * scale)
  { scale := scale
    inputWidth := inputWidth
    inputHeight := inputHeight
    leftPadding := truncate ((modelWidth - inputWidth) / 2)
    topPadding := truncate ((modelHeight - inputHeight) / 2) }

/-- `letterbox`, as far as the globals are concerned. -/
def letterbox (g : Globals) (iwidth iheight : ℤ) : Globals :=
  let geometry := letterboxGeometry g.detectManage.modelWidth g.detectManage.modelHeight
    iwidth iheight
  { g with
    detectManage := { g.detectManage with scale := geometry.scale }
    detectResult :=
      { g.detectResult with
        leftPadding := geometry.leftPadding
        topPadding := geometry.topPadding } }

structure Region where
  x : ℤ
  y : ℤ
  width : ℤ
  height : ℤ
deriving DecidableEq

/-- The region lies inside the camera frame, as the subscript `input(region_of_interest)`
requires. -/
def Region.InFrame (r : Region) : Prop :=
  0 ≤ r.x ∧ 0 ≤ r.width ∧ r.x + r.width ≤ rawImageWidth ∧
    0 ≤ r.y ∧ 0 ≤ r.height ∧ r.y + r.height ≤ rawImageHeight

instance (r : Region) : Decidable r.InFrame := inferInstanceAs (Decidable (_ ∧ _))

/-- `pollingdecetbox`; the crop offset is stored over the one `draw_result` left. -/
def pollingdecetbox (g : Globals) : Option (Globals × Region) :=
  if g.detectResult.regionSX ≤ 840 then
    let g := { g with detectResult := { g.detectResult with regionSX := 420 } }
    let roi : Region :=
      { x := g.detectResult.regionSX, y := 0, width := g.detectManage.srolWidth,
        height := g.detectManage.srolHeight }
    if roi.InFrame then
      some (letterbox g g.detectManage.srolWidth g.detectManage.srolHeight, roi)
    else none
  else none

def mapCoordinates (g : Globals) (x y : ℤ) : ℤ × ℤ :=
  let ap := g.detectResult.regionSX
  let mx := x - g.detectResult.leftPadding
  let my := y - g.detectResult.topPadding
  (truncate (mx / g.detectManage.scale) + ap, truncate (my / g.detectManage.scale))

/-! ## The crop every frame is inferred from -/

/-- What no function of the program changes, and what `draw_result` keeps. -/
structure Configured (g : Globals) : Prop where
  srolWidth_eq : g.detectManage.srolWidth = 1080
  srolHeight_eq : g.detectManage.srolHeight = 1080
  modelWidth_eq : g.detectManage.modelWidth = 640
  modelHeight_eq : g.detectManage.modelHeight = 640
  pollingareacnt_eq : g.detectManage.pollingareacnt = 3
  pollingarea_mem : 0 ≤ g.detectManage.pollingarea ∧ g.detectManage.pollingarea < 3
  regionSX_le : g.detectResult.regionSX ≤ 840

structure Cropped (g : Globals) : Prop extends Configured g where
  regionSX_eq : g.detectResult.regionSX = 420
  scale_eq : g.detectManage.scale = 16 / 27
  leftPadding_eq : g.detectResult.leftPadding = 0
  topPadding_eq : g.detectResult.topPadding = 0

theorem configured_init : Configured (imageHanldeInit .static) :=
  ⟨rfl, rfl, rfl, rfl, rfl, by decide, by decide⟩

theorem letterboxGeometry_crop : letterboxGeometry 640 640 1080 1080 =
    { scale := 16 / 27, inputWidth := 640, inputHeight := 640, leftPadding := 0,
      topPadding := 0 } := by
  have hwidth : truncate ((1080 : ℤ) * ((640 : ℤ) / (1080 : ℤ) : ℚ)) = 640 := by
    have hexact : ((1080 : ℤ) * ((640 : ℤ) / (1080 : ℤ) : ℚ) : ℚ) = (640 : ℤ) := by norm_num
    rw [hexact, truncate_intCast]
  have hpad : truncate (((640 : ℤ) - (640 : ℤ) : ℚ) / 2) = 0 := by
    rw [sub_self, zero_div]
    exact truncate_intCast 0
  unfold letterboxGeometry
  simp only [lt_irrefl, if_false, hwidth, hpad, LetterboxGeometry.mk.injEq, and_true]
  norm_num

def cropRegion : Region := { x := 420, y := 0, width := 1080, height := 1080 }

theorem pollingdecetbox_spec {g : Globals} (h : Configured g) :
    ∃ g', pollingdecetbox g = some (g', cropRegion) ∧ Cropped g' ∧
      g'.detectManage.pollingarea = g.detectManage.pollingarea ∧
      g'.detectResult.targetSX = g.detectResult.targetSX ∧
      g'.detectResult.targetEX = g.detectResult.targetEX ∧
      g'.detectResult.targetHave = g.detectResult.targetHave ∧
      g'.catDected = g.catDected ∧ g'.usecondLe = g.usecondLe := by
  obtain ⟨hw, hh, hmw, hmh, hcnt, harea, hregion⟩ := h
  have hroi : cropRegion.InFrame := by decide
  refine ⟨letterbox { g with detectResult := { g.detectResult with regionSX := 420 } }
      g.detectManage.srolWidth g.detectManage.srolHeight, ?_,
    ⟨⟨hw, hh, hmw, hmh, hcnt, harea, (by decide : (420 : ℤ) ≤ 840)⟩, rfl, ?_, ?_, ?_⟩,
    rfl, rfl, rfl, rfl, rfl, rfl⟩
  · unfold pollingdecetbox
    simp only [if_pos hregion, hw, hh]
    exact if_pos hroi
  · simp only [letterbox, hw, hh, hmw, hmh, letterboxGeometry_crop]
  · simp only [letterbox, hw, hh, hmw, hmh, letterboxGeometry_crop]
  · simp only [letterbox, hw, hh, hmw, hmh, letterboxGeometry_crop]

theorem mapCoordinates_cropped {g : Globals} (h : Cropped g) {x y : ℤ} (hx : 0 ≤ x)
    (hy : 0 ≤ y) : mapCoordinates g x y = (420 + 27 * x / 16, 27 * y / 16) := by
  have hback : ∀ z : ℤ, 0 ≤ z → truncate (((z - 0 : ℤ) : ℚ) / (16 / 27)) = 27 * z / 16 := by
    intro z hz
    calc truncate (((z - 0 : ℤ) : ℚ) / (16 / 27))
        = truncate (((27 * z : ℤ) : ℚ) / ((16 : ℕ) : ℚ)) := by
          congr 1
          push_cast
          ring
      _ = 27 * z / 16 := truncate_div (by omega) 16
  rw [mapCoordinates, h.scale_eq, h.leftPadding_eq, h.topPadding_eq, h.regionSX_eq,
    hback x hx, hback y hy, add_comm]

end CatDect.ImageHandle
