import CatDect.ImageHandle.Geometry

/-!
# The letterbox and its inverse

`letterbox` computes scale and padding once, for `mapCoordinates` to invert them later.
For the image of the OpenCV branch that works for every crop and model size, up to the
four roundings.  The RGA branch, which is tried first, copies the crop into a buffer of fixed
size and scales it onto the whole canvas, which gives the same image only if the crop fits
and is a square.
-/

namespace CatDect.ImageHandle

open CatDect.Support

/-! ## One axis -/

theorem centred {room extent : ℤ} {scale : ℚ} (hsize : 0 ≤ extent * scale)
    (hle : extent * scale ≤ room) :
    0 ≤ truncate ((room - truncate (extent * scale) : ℚ) / 2) ∧
      truncate ((room - truncate (extent * scale) : ℚ) / 2) + truncate (extent * scale) ≤ room ∧
      |room - truncate (extent * scale) -
        2 * truncate ((room - truncate (extent * scale) : ℚ) / 2)| ≤ 1 := by
  have hroom : truncate (extent * scale) ≤ room := truncate_le_of_le hsize hle
  have hpos : 0 ≤ truncate (extent * scale) := truncate_nonneg hsize
  have hhalf : truncate ((room - truncate (extent * scale) : ℚ) / 2) =
      (room - truncate (extent * scale)) / 2 := by
    have hcast : ((room - truncate (extent * scale) : ℚ) / 2) =
        ((room - truncate (extent * scale) : ℤ) : ℚ) / ((2 : ℕ) : ℚ) := by
      push_cast
      rfl
    rw [hcast, truncate_div (by omega)]
    rfl
  rw [hhalf, abs_le]
  omega

/-! ## The geometry for any crop and model size -/

section Geometry

variable (modelWidth modelHeight iwidth iheight : ℤ)

theorem letterboxGeometry_scale :
    (letterboxGeometry modelWidth modelHeight iwidth iheight).scale =
      min ((modelWidth : ℚ) / iwidth) ((modelHeight : ℚ) / iheight) := by
  unfold letterboxGeometry
  dsimp only
  split_ifs with hlt
  · exact (min_eq_left hlt.le).symm
  · exact (min_eq_right (not_lt.mp hlt)).symm

/-- The pasted rectangle lies in the canvas, fills it in one direction and is centred. -/
structure LetterboxGeometry.Fits (geometry : LetterboxGeometry) (modelWidth modelHeight : ℤ) :
    Prop where
  leftPadding_nonneg : 0 ≤ geometry.leftPadding
  right_le : geometry.leftPadding + geometry.inputWidth ≤ modelWidth
  topPadding_nonneg : 0 ≤ geometry.topPadding
  bottom_le : geometry.topPadding + geometry.inputHeight ≤ modelHeight
  fills : geometry.inputWidth = modelWidth ∨ geometry.inputHeight = modelHeight
  marginX_le : |modelWidth - geometry.inputWidth - 2 * geometry.leftPadding| ≤ 1
  marginY_le : |modelHeight - geometry.inputHeight - 2 * geometry.topPadding| ≤ 1

variable {modelWidth modelHeight iwidth iheight}

theorem letterboxGeometry_scale_pos (hw : 0 < iwidth)
    (hwidth : 1 ≤ (letterboxGeometry modelWidth modelHeight iwidth iheight).inputWidth) :
    0 < (letterboxGeometry modelWidth modelHeight iwidth iheight).scale := by
  by_contra hscale
  have hneg : (iwidth : ℚ) * (letterboxGeometry modelWidth modelHeight iwidth iheight).scale ≤ 0 :=
    mul_nonpos_of_nonneg_of_nonpos (by exact_mod_cast hw.le) (not_lt.mp hscale)
  have hzero : (letterboxGeometry modelWidth modelHeight iwidth iheight).inputWidth ≤ 0 :=
    truncate_nonpos hneg
  omega

theorem letterboxGeometry_fits (hw : 0 < iwidth) (hh : 0 < iheight)
    (hscale : 0 < (letterboxGeometry modelWidth modelHeight iwidth iheight).scale) :
    (letterboxGeometry modelWidth modelHeight iwidth iheight).Fits modelWidth modelHeight := by
  have hwq : (0 : ℚ) < iwidth := by exact_mod_cast hw
  have hhq : (0 : ℚ) < iheight := by exact_mod_cast hh
  have hmin := letterboxGeometry_scale modelWidth modelHeight iwidth iheight
  set geometry := letterboxGeometry modelWidth modelHeight iwidth iheight
  set scale := geometry.scale
  have hinputW : geometry.inputWidth = truncate (iwidth * scale) := rfl
  have hinputH : geometry.inputHeight = truncate (iheight * scale) := rfl
  have hpadX : geometry.leftPadding =
      truncate ((modelWidth - truncate (iwidth * scale) : ℚ) / 2) := rfl
  have hpadY : geometry.topPadding =
      truncate ((modelHeight - truncate (iheight * scale) : ℚ) / 2) := rfl
  have hleW : iwidth * scale ≤ modelWidth := by
    rw [mul_comm, ← le_div_iff₀ hwq, hmin]
    exact min_le_left _ _
  have hleH : iheight * scale ≤ modelHeight := by
    rw [mul_comm, ← le_div_iff₀ hhq, hmin]
    exact min_le_right _ _
  obtain ⟨hleft, hright, hmarginX⟩ := centred (mul_pos hwq hscale).le hleW
  obtain ⟨htop, hbottom, hmarginY⟩ := centred (mul_pos hhq hscale).le hleH
  rw [← hpadX, ← hinputW] at hright hmarginX
  rw [← hpadY, ← hinputH] at hbottom hmarginY
  rw [← hpadX] at hleft
  rw [← hpadY] at htop
  refine ⟨hleft, hright, htop, hbottom, ?_, hmarginX, hmarginY⟩
  rcases min_choice ((modelWidth : ℚ) / iwidth) ((modelHeight : ℚ) / iheight) with hx | hy
  · have hexact : (iwidth : ℚ) * scale = modelWidth := by
      rw [hmin, hx, mul_div_cancel₀ _ hwq.ne']
    rw [hexact, truncate_intCast] at hinputW
    exact .inl hinputW
  · have hexact : (iheight : ℚ) * scale = modelHeight := by
      rw [hmin, hy, mul_div_cancel₀ _ hhq.ne']
    rw [hexact, truncate_intCast] at hinputH
    exact .inr hinputH

end Geometry

/-! ## The way back -/

/-- `p` is the source pixel `(x, y)` of a crop at `offset`, up to the rounding. -/
def BackUpTo (scale : ℚ) (offset x y : ℤ) (p : ℤ × ℤ) : Prop :=
  ∃ x' y', p = (offset + x', y') ∧ (0 ≤ x - x' ∧ ((x - x' : ℤ) : ℚ) < 1 / scale + 1) ∧
    (0 ≤ y - y' ∧ ((y - y' : ℤ) : ℚ) < 1 / scale + 1)

/-- **Letterbox and `mapCoordinates` are inverse.**  For every crop and model size that
leaves anything of the crop. -/
theorem mapCoordinates_letterbox (g : Globals) {iwidth iheight : ℤ} (hw : 0 < iwidth)
    (hh : 0 < iheight) {geometry : LetterboxGeometry}
    (hgeometry : geometry = letterboxGeometry g.detectManage.modelWidth
      g.detectManage.modelHeight iwidth iheight) (hwidth : 1 ≤ geometry.inputWidth) :
    geometry.Fits g.detectManage.modelWidth g.detectManage.modelHeight ∧
      ∀ x y : ℤ, 0 ≤ x → 0 ≤ y →
        BackUpTo geometry.scale g.detectResult.regionSX x y
          (mapCoordinates (letterbox g iwidth iheight)
            (⌊(x : ℚ) * geometry.scale⌋ + geometry.leftPadding)
            (⌊(y : ℚ) * geometry.scale⌋ + geometry.topPadding)) := by
  have hscale : 0 < geometry.scale := by
    subst hgeometry
    exact letterboxGeometry_scale_pos hw hwidth
  have hmap : ∀ u v : ℤ, mapCoordinates (letterbox g iwidth iheight) (u + geometry.leftPadding)
      (v + geometry.topPadding) =
      (truncate (u / geometry.scale) + g.detectResult.regionSX, truncate (v / geometry.scale)) := by
    intro u v
    simp only [mapCoordinates, letterbox, ← hgeometry, add_sub_cancel_right]
  constructor
  · subst hgeometry
    exact letterboxGeometry_fits hw hh hscale
  · intro x y hx hy
    rw [hmap, add_comm]
    exact ⟨_, _, rfl, truncate_scaled_back hscale hx, truncate_scaled_back hscale hy⟩

theorem mapCoordinates_letterbox_wholeFrame :
    (letterboxGeometry 640 640 1920 1080).Fits 640 640 ∧
      ∀ x y : ℤ, 0 ≤ x → 0 ≤ y →
        BackUpTo (letterboxGeometry 640 640 1920 1080).scale 0 x y
          (mapCoordinates (letterbox .static 1920 1080)
            (⌊(x : ℚ) * (letterboxGeometry 640 640 1920 1080).scale⌋ +
              (letterboxGeometry 640 640 1920 1080).leftPadding)
            (⌊(y : ℚ) * (letterboxGeometry 640 640 1920 1080).scale⌋ +
              (letterboxGeometry 640 640 1920 1080).topPadding)) :=
  mapCoordinates_letterbox .static (by decide) (by decide) rfl (by decide +kernel)

/-! ## The two branches of `letterbox` -/

def scaleOnto (src dst : Region) (x y : ℤ) : ℚ × ℚ :=
  (dst.x + (x - src.x) * ((dst.width : ℚ) / src.width),
    dst.y + (y - src.y) * ((dst.height : ℚ) / src.height))

/-- `src_buf_size`, as `image_hanlde_init` allocates it: three bytes a pixel. -/
def srcBufSize (g : Globals) : ℤ := g.detectManage.srolWidth * g.detectManage.srolHeight * 3

/-- The RGA branch: the crop is copied into `src_buf`, and `imresize` takes the whole source
rectangle to the whole destination rectangle.  A copy beyond the end of `src_buf` leaves
nothing to say about the image. -/
def rgaPosition (g : Globals) (iwidth iheight x y : ℤ) : Option (ℚ × ℚ) :=
  if iwidth * iheight * 3 ≤ srcBufSize g then
    some (scaleOnto { x := 0, y := 0, width := iwidth, height := iheight }
      { x := 0, y := 0, width := g.detectManage.modelWidth, height := g.detectManage.modelHeight }
      x y)
  else none

/-- The position that `mapCoordinates` inverts: scaled by `detect_manage.scale` and pasted at
the padding. -/
def opencvPosition (g : Globals) (iwidth iheight x y : ℤ) : ℚ × ℚ :=
  let g := letterbox g iwidth iheight
  (g.detectResult.leftPadding + x * g.detectManage.scale,
    g.detectResult.topPadding + y * g.detectManage.scale)

/-- The OpenCV branch to the letter: `cv::resize` takes the source to `inputWidth` times
`inputHeight` whole pixels, which are pasted at the padding. -/
def resizePosition (g : Globals) (iwidth iheight x y : ℤ) : ℚ × ℚ :=
  let geometry :=
    letterboxGeometry g.detectManage.modelWidth g.detectManage.modelHeight iwidth iheight
  scaleOnto { x := 0, y := 0, width := iwidth, height := iheight }
    { x := geometry.leftPadding
      y := geometry.topPadding
      width := geometry.inputWidth
      height := geometry.inputHeight }
    x y

/-- Every source pixel has a position in the first image, and the same in the second. -/
def SameGeometry (iwidth iheight : ℤ) (position : ℤ → ℤ → Option (ℚ × ℚ))
    (position' : ℤ → ℤ → ℚ × ℚ) : Prop :=
  ∀ x y : ℤ, 0 ≤ x → x < iwidth → 0 ≤ y → y < iheight → position x y = some (position' x y)

theorem shorter_axis_differs {n m : ℤ} {r : ℚ} (hn : 0 < n) (hnm : n < m) (hr : r < 640 / n) :
    ∃ y : ℤ, 0 ≤ y ∧ y < n ∧ (y : ℚ) * (640 / n) ≠
      truncate ((640 - truncate (n * (640 / m : ℚ)) : ℚ) / 2) + y * r := by
  have hmq : (0 : ℚ) < m := by exact_mod_cast hn.trans hnm
  by_contra hall
  push Not at hall
  rcases Int.lt_or_eq_of_le (Int.add_one_le_of_lt hn) with htwo | hone
  · -- the images of the first two pixels determine the scale
    have hzero := hall 0 le_rfl hn
    have hnext := hall 1 (by decide) (by omega)
    push_cast at hzero hnext
    linarith
  · have hzero := hall 0 le_rfl hn
    have hn1 : n = 1 := by omega
    subst hn1
    have hm2 : (2 : ℚ) ≤ m := by exact_mod_cast hnm
    have hhalf : (1 : ℤ) * (640 / m : ℚ) ≤ (320 : ℤ) := by
      rw [Int.cast_one, one_mul, div_le_iff₀ hmq]
      push_cast
      linarith
    have hsize : truncate ((1 : ℤ) * (640 / m : ℚ)) ≤ 320 :=
      truncate_le_of_le (by positivity) hhalf
    have hpad : (160 : ℤ) ≤ truncate
        ((640 - truncate ((1 : ℤ) * (640 / m : ℚ)) : ℚ) / 2) := by
      have hsizeq : (truncate ((1 : ℤ) * (640 / m : ℚ)) : ℚ) ≤ 320 := by exact_mod_cast hsize
      rw [truncate_of_nonneg (by linarith), Int.le_floor]
      push_cast
      linarith
    have hpadq : (160 : ℚ) ≤ (truncate
        ((640 - truncate ((1 : ℤ) * (640 / m : ℚ)) : ℚ) / 2) : ℤ) := by exact_mod_cast hpad
    push_cast at hzero hpadq
    linarith

section SameGeometry

variable {iwidth iheight : ℤ}

theorem scale_eq (iwidth iheight : ℤ) :
    (letterboxGeometry 640 640 iwidth iheight).scale =
      min (640 / iwidth : ℚ) (640 / iheight) := by
  have hscale := letterboxGeometry_scale 640 640 iwidth iheight
  push_cast at hscale
  exact hscale

theorem inputSize_eq (iwidth iheight : ℤ) :
    (letterboxGeometry 640 640 iwidth iheight).inputWidth =
      truncate (iwidth * min (640 / iwidth : ℚ) (640 / iheight)) ∧
    (letterboxGeometry 640 640 iwidth iheight).inputHeight =
      truncate (iheight * min (640 / iwidth : ℚ) (640 / iheight)) := by
  rw [← scale_eq]
  exact ⟨rfl, rfl⟩

theorem padding_eq (iwidth iheight : ℤ) :
    (letterboxGeometry 640 640 iwidth iheight).leftPadding =
      truncate ((640 - truncate (iwidth * min (640 / iwidth : ℚ) (640 / iheight)) : ℚ) / 2) ∧
    (letterboxGeometry 640 640 iwidth iheight).topPadding =
      truncate ((640 - truncate (iheight * min (640 / iwidth : ℚ) (640 / iheight)) : ℚ) / 2) := by
  rw [← scale_eq]
  exact ⟨rfl, rfl⟩

theorem min_scale_of_lt {n m : ℤ} (hn : 0 < n) (hnm : n < m) :
    (640 / m : ℚ) < 640 / n ∧ min (640 / n : ℚ) (640 / m) = 640 / m := by
  have hlt : (640 / m : ℚ) < 640 / n :=
    div_lt_div_of_pos_left (by norm_num) (by exact_mod_cast hn) (by exact_mod_cast hnm)
  exact ⟨hlt, min_eq_right hlt.le⟩

theorem resized_lt {n m : ℤ} (hn : 0 < n) (hnm : n < m) :
    ((truncate (n * (640 / m : ℚ)) : ℤ) : ℚ) / n < 640 / n := by
  have hnq : (0 : ℚ) < n := by exact_mod_cast hn
  have hmq : (0 : ℚ) < m := by exact_mod_cast hn.trans hnm
  have hsize : (n : ℚ) * (640 / m) < 640 := by
    rw [← lt_div_iff₀' hnq]
    exact (min_scale_of_lt hn hnm).1
  have hnonneg : (0 : ℚ) ≤ n * (640 / m) := by positivity
  rw [div_lt_div_iff_of_pos_right hnq]
  calc ((truncate (n * (640 / m : ℚ)) : ℤ) : ℚ)
      = (⌊(n : ℚ) * (640 / m)⌋ : ℤ) := by rw [truncate_of_nonneg hnonneg]
    _ ≤ n * (640 / m) := Int.floor_le _
    _ < 640 := hsize

theorem fills_square {n : ℤ} (hn : 0 < n) :
    truncate (n * min (640 / n : ℚ) (640 / n)) = 640 := by
  have hnq : (0 : ℚ) < n := by exact_mod_cast hn
  have hexact : (n : ℚ) * min (640 / n : ℚ) (640 / n) = (640 : ℤ) := by
    rw [min_self, mul_div_cancel₀ _ hnq.ne']
    norm_num
  rw [hexact, truncate_intCast]

variable {g : Globals}

theorem rgaPosition_eq (hg : Configured g) (x y : ℤ) :
    rgaPosition g iwidth iheight x y =
      if iwidth * iheight ≤ 1080 * 1080 then
        some (x * (640 / iwidth : ℚ), y * (640 / iheight : ℚ))
      else none := by
  have hsize : iwidth * iheight * 3 ≤ srcBufSize g ↔ iwidth * iheight ≤ 1080 * 1080 := by
    rw [srcBufSize, hg.srolWidth_eq, hg.srolHeight_eq]
    omega
  unfold rgaPosition scaleOnto
  simp only [hsize, hg.modelWidth_eq, hg.modelHeight_eq, Int.cast_zero, Int.cast_ofNat, zero_add,
    sub_zero]

theorem square_fits_iff {n : ℤ} (hn : 0 < n) : n * n ≤ 1080 * 1080 ↔ n ≤ 1080 :=
  (mul_self_le_mul_self_iff hn.le (by decide)).symm

theorem sameGeometry_of_slopes (hg : Configured g) {position' : ℤ → ℤ → ℚ × ℚ} (hw : 0 < iwidth)
    (hh : 0 < iheight) {rx ry : ℚ}
    (hposition' : ∀ x y, position' x y =
      ((letterboxGeometry 640 640 iwidth iheight).leftPadding + x * rx,
        (letterboxGeometry 640 640 iwidth iheight).topPadding + y * ry))
    (hx : iwidth < iheight → rx < 640 / iwidth) (hy : iheight < iwidth → ry < 640 / iheight)
    (heq : iwidth = iheight → rx = 640 / iwidth ∧ ry = 640 / iheight) :
    SameGeometry iwidth iheight (rgaPosition g iwidth iheight) position' ↔
      iwidth = iheight ∧ iwidth ≤ 1080 := by
  obtain ⟨hleft, htop⟩ := padding_eq iwidth iheight
  constructor
  · intro hsame
    have hfits : iwidth * iheight ≤ 1080 * 1080 := by
      by_contra hover
      have hpixel := hsame 0 0 le_rfl hw le_rfl hh
      rw [rgaPosition_eq hg, if_neg hover] at hpixel
      exact absurd hpixel (by simp)
    have hpos : ∀ x y : ℤ, 0 ≤ x → x < iwidth → 0 ≤ y → y < iheight →
        ((x * (640 / iwidth : ℚ), y * (640 / iheight : ℚ)) : ℚ × ℚ) = position' x y := by
      intro x y hx0 hxn hy0 hyn
      have hpixel := hsame x y hx0 hxn hy0 hyn
      rw [rgaPosition_eq hg, if_pos hfits] at hpixel
      exact Option.some.inj hpixel
    have hsquare : iwidth = iheight := by
      rcases lt_trichotomy iwidth iheight with hlt | hsquare | hlt
      · obtain ⟨x, hx0, hxn, hne⟩ := shorter_axis_differs hw hlt (hx hlt)
        have hdiff := hpos x 0 hx0 hxn le_rfl hh
        rw [hposition', hleft, (min_scale_of_lt hw hlt).2] at hdiff
        exact absurd (congrArg Prod.fst hdiff) hne
      · exact hsquare
      · obtain ⟨y, hy0, hyn, hne⟩ := shorter_axis_differs hh hlt (hy hlt)
        have hdiff := hpos 0 y le_rfl hw hy0 hyn
        rw [hposition', htop, min_comm, (min_scale_of_lt hh hlt).2] at hdiff
        exact absurd (congrArg Prod.snd hdiff) hne
    rw [← hsquare] at hfits
    exact ⟨hsquare, (square_fits_iff hw).mp hfits⟩
  · rintro ⟨hsquare, hle⟩ x y - - - -
    obtain ⟨hrx, hry⟩ := heq hsquare
    subst hsquare
    have hpad : truncate (((640 : ℚ) - (640 : ℤ)) / 2) = 0 := by
      have hzero : ((640 : ℚ) - (640 : ℤ)) / 2 = (0 : ℤ) := by norm_num
      rw [hzero, truncate_intCast]
    rw [fills_square hw, hpad] at hleft htop
    rw [rgaPosition_eq hg, if_pos ((square_fits_iff hw).mpr hle), hposition', hleft, htop, hrx, hry]
    simp only [Int.cast_zero, zero_add]

theorem opencvPosition_eq (hg : Configured g) (x y : ℤ) :
    opencvPosition g iwidth iheight x y =
      ((letterboxGeometry 640 640 iwidth iheight).leftPadding +
          x * min (640 / iwidth : ℚ) (640 / iheight),
        (letterboxGeometry 640 640 iwidth iheight).topPadding +
          y * min (640 / iwidth : ℚ) (640 / iheight)) := by
  unfold opencvPosition letterbox
  simp only [hg.modelWidth_eq, hg.modelHeight_eq, scale_eq]

theorem resizePosition_eq (hg : Configured g) (x y : ℤ) :
    resizePosition g iwidth iheight x y =
      ((letterboxGeometry 640 640 iwidth iheight).leftPadding +
          x * ((letterboxGeometry 640 640 iwidth iheight).inputWidth / iwidth : ℚ),
        (letterboxGeometry 640 640 iwidth iheight).topPadding +
          y * ((letterboxGeometry 640 640 iwidth iheight).inputHeight / iheight : ℚ)) := by
  unfold resizePosition scaleOnto
  simp only [hg.modelWidth_eq, hg.modelHeight_eq, Int.cast_zero, sub_zero]

/-- **When the two branches have the same geometry.**  Exactly for square crops that fit the
source buffer, whether the OpenCV branch is taken at its scale or to the letter. -/
theorem sameGeometry_iff (hg : Configured g) (hw : 0 < iwidth) (hh : 0 < iheight) :
    (SameGeometry iwidth iheight (rgaPosition g iwidth iheight)
        (opencvPosition g iwidth iheight) ↔ iwidth = iheight ∧ iwidth ≤ 1080) ∧
      (SameGeometry iwidth iheight (rgaPosition g iwidth iheight)
        (resizePosition g iwidth iheight) ↔ iwidth = iheight ∧ iwidth ≤ 1080) := by
  constructor
  · apply sameGeometry_of_slopes hg hw hh (opencvPosition_eq hg)
    · intro hlt
      rw [(min_scale_of_lt hw hlt).2]
      exact (min_scale_of_lt hw hlt).1
    · intro hlt
      rw [min_comm, (min_scale_of_lt hh hlt).2]
      exact (min_scale_of_lt hh hlt).1
    · rintro rfl
      exact ⟨min_self _, min_self _⟩
  · obtain ⟨hinputW, hinputH⟩ := inputSize_eq iwidth iheight
    apply sameGeometry_of_slopes hg hw hh (resizePosition_eq hg)
    · intro hlt
      rw [hinputW, (min_scale_of_lt hw hlt).2]
      exact resized_lt hw hlt
    · intro hlt
      rw [hinputH, min_comm, (min_scale_of_lt hh hlt).2]
      exact resized_lt hh hlt
    · rintro rfl
      rw [fills_square hw] at hinputW hinputH
      rw [hinputW, hinputH]
      exact ⟨rfl, rfl⟩

end SameGeometry

theorem sameGeometry_iff_halfCrop :
    (SameGeometry 1080 540 (rgaPosition (imageHanldeInit .static) 1080 540)
        (opencvPosition (imageHanldeInit .static) 1080 540) ↔
          (1080 : ℤ) = 540 ∧ (1080 : ℤ) ≤ 1080) ∧
      (SameGeometry 1080 540 (rgaPosition (imageHanldeInit .static) 1080 540)
        (resizePosition (imageHanldeInit .static) 1080 540) ↔
          (1080 : ℤ) = 540 ∧ (1080 : ℤ) ≤ 1080) :=
  sameGeometry_iff configured_init (by decide) (by decide)

/-- The upper half of the region, which fits `src_buf`: its first pixel is moved down by the
margin only in one of the images. -/
theorem halfCrop_differs :
    rgaPosition (imageHanldeInit .static) 1080 540 0 0 = some (0, 0) ∧
      opencvPosition (imageHanldeInit .static) 1080 540 0 0 = (0, 160) ∧
      ¬ SameGeometry 1080 540 (rgaPosition (imageHanldeInit .static) 1080 540)
        (opencvPosition (imageHanldeInit .static) 1080 540) := by
  have hrga : rgaPosition (imageHanldeInit .static) 1080 540 0 0 = some (0, 0) := by
    decide +kernel
  have hopencv : opencvPosition (imageHanldeInit .static) 1080 540 0 0 = (0, 160) := by
    decide +kernel
  refine ⟨hrga, hopencv, ?_⟩
  intro hsame
  have hpixel := hsame 0 0 le_rfl (by decide) le_rfl (by decide)
  rw [hrga, hopencv] at hpixel
  exact absurd (Option.some.inj hpixel) (by decide +kernel)

end CatDect.ImageHandle
