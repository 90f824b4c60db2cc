import CatDect.Pipeline.Localisation

/-!
# The range of the turret

`mqtt_guard_ps_set` publishes an angle pair for a box of the camera frame.  The sign of
`shake_val` alternates from call to call, so the first angle of a call depends on how many
calls came before it.  The calls that `draw_result` makes are far enough from the border of
the frame for either sign.
-/

namespace CatDect.Mqtt

open CatDect.Support CatDect.Postprocess CatDect.ImageHandle CatDect.Pipeline

/-! ## The code -/

structure Coordinate where
  x : ℤ
  y : ℤ
deriving DecidableEq

/-- The static `shake_val` after the call, and the published pair. -/
def mqttGuardPsSet (shakeVal sX sY _eX _eY : ℤ) : ℤ × Coordinate :=
  let shakeVal := -1 * shakeVal
  let xAngle : ℚ := sX / (192 / 10) + 40 + shakeVal
  let yAngle : ℚ := sY / (432 / 10) + 50
  (shakeVal, ⟨truncate xAngle, truncate yAngle⟩)

def guardCall (w : ℤ × List Coordinate) (box : ImageRect) : ℤ × List Coordinate :=
  let call := mqttGuardPsSet w.1 box.left box.top box.right box.bottom
  (call.1, w.2 ++ [call.2])

def published (boxes : List ImageRect) : List Coordinate := (boxes.foldl guardCall (5, [])).2

/-- The range given in the comment on the function. -/
structure Coordinate.InTurretRange (p : Coordinate) : Prop where
  x_ge : 40 ≤ p.x
  x_le : p.x ≤ 140
  y_ge : 50 ≤ p.y
  y_le : p.y ≤ 75

/-! ## The angles of a call -/

theorem mqttGuardPsSet_eq {shakeVal sX sY : ℤ} (hshake : -40 ≤ -1 * shakeVal) (hX : 0 ≤ sX)
    (hY : 0 ≤ sY) (eX eY : ℤ) :
    mqttGuardPsSet shakeVal sX sY eX eY =
      (-1 * shakeVal, ⟨(5 * sX + 96 * (40 + -1 * shakeVal)) / 96, (5 * sY + 216 * 50) / 216⟩) := by
  have hx : ((sX : ℚ) / (192 / 10) + 40 + (-1 * shakeVal : ℤ)) =
      ((5 * sX + 96 * (40 + -1 * shakeVal) : ℤ) : ℚ) / ((96 : ℕ) : ℚ) := by
    push_cast
    ring
  have hy : ((sY : ℚ) / (432 / 10) + 50) = ((5 * sY + 216 * 50 : ℤ) : ℚ) / ((216 : ℕ) : ℚ) := by
    push_cast
    ring
  unfold mqttGuardPsSet
  simp only [hx, hy]
  rw [truncate_div (by omega), truncate_div (by omega)]
  rfl

theorem mqttGuardPsSet_inTurretRange {shakeVal : ℤ} {box : ImageRect} (hbox : InFrame box)
    (hshake : -40 ≤ -1 * shakeVal) :
    (mqttGuardPsSet shakeVal box.left box.top box.right box.bottom).2.InTurretRange ↔
      96 * shakeVal ≤ 5 * box.left ∧ 5 * box.left < 96 * (101 + shakeVal) := by
  obtain ⟨h1, h2, h3, h4, h5, h6⟩ := hbox
  unfold rawImageHeight at h6
  rw [mqttGuardPsSet_eq hshake h1 h4]
  constructor
  · rintro ⟨hge, hle, -, -⟩
    dsimp only at hge hle
    omega
  · rintro ⟨hge, hlt⟩
    constructor <;> dsimp only <;> omega

/-! ## Sequences of calls -/

def shakeAfter (n : ℕ) : ℤ := if n % 2 = 0 then 5 else -5

theorem shakeAfter_succ (n : ℕ) : shakeAfter (n + 1) = -1 * shakeAfter n := by
  unfold shakeAfter
  split_ifs <;> omega

theorem guardCalls_eq (boxes : List ImageRect) :
    boxes.foldl guardCall (5, []) =
      (shakeAfter boxes.length, boxes.zipIdx.map fun (box, n) =>
        (mqttGuardPsSet (shakeAfter n) box.left box.top box.right box.bottom).2) := by
  induction boxes using List.reverseRecOn with
  | nil => rfl
  | append_singleton boxes box ih =>
      rw [List.foldl_append, ih, List.length_append, List.length_singleton, shakeAfter_succ,
        List.zipIdx_append, List.map_append, Nat.zero_add]
      rfl

theorem mem_published {boxes : List ImageRect} {p : Coordinate} :
    p ∈ published boxes ↔ ∃ i box, boxes[i]? = some box ∧
      (mqttGuardPsSet (shakeAfter i) box.left box.top box.right box.bottom).2 = p := by
  rw [published, guardCalls_eq, List.mem_map]
  constructor
  · rintro ⟨⟨box, i⟩, hmem, hp⟩
    exact ⟨i, box, List.mem_zipIdx_iff_getElem?.mp hmem, hp⟩
  · rintro ⟨i, box, hmem, hp⟩
    exact ⟨⟨box, i⟩, List.mem_zipIdx_iff_getElem?.mpr hmem, hp⟩

theorem published_of_inCrop {boxes : List ImageRect} (hboxes : ∀ b ∈ boxes, InCrop 420 b) :
    ∀ p ∈ published boxes, p.InTurretRange := by
  intro p hp
  obtain ⟨i, box, hi, rfl⟩ := mem_published.mp hp
  have hbox := hboxes box (List.mem_of_getElem? hi)
  have h1 := hbox.left_ge
  have h2 := hbox.left_le
  have h3 := hbox.right_le
  have hshake : -40 ≤ -1 * shakeAfter i := by
    unfold shakeAfter
    split_ifs <;> omega
  rw [mqttGuardPsSet_inTurretRange (hbox.inFrame (by decide)) hshake]
  unfold shakeAfter
  split_ifs <;> omega

/-- **When the turret stays in its range.**  For boxes inside the frame exactly if the first,
third, ... call has its left edge at 96 or above, and the second, fourth, ... at 1843 or
below. -/
theorem published_inTurretRange_iff (boxes : List ImageRect) (hboxes : ∀ b ∈ boxes, InFrame b) :
    (∀ p ∈ published boxes, p.InTurretRange) ↔
      ∀ i box, boxes[i]? = some box →
        (i % 2 = 0 → 96 ≤ box.left) ∧ (i % 2 ≠ 0 → box.left ≤ 1843) := by
  have hcall : ∀ i box, boxes[i]? = some box →
      ((mqttGuardPsSet (shakeAfter i) box.left box.top box.right box.bottom).2.InTurretRange ↔
        (i % 2 = 0 → 96 ≤ box.left) ∧ (i % 2 ≠ 0 → box.left ≤ 1843)) := by
    intro i box hi
    have hbox := hboxes box (List.mem_of_getElem? hi)
    have h1 := hbox.left_nonneg
    have h2 := hbox.left_le
    have h3 := hbox.right_le
    unfold rawImageWidth at h3
    have hshake : -40 ≤ -1 * shakeAfter i := by
      unfold shakeAfter
      split_ifs <;> omega
    rw [mqttGuardPsSet_inTurretRange hbox hshake]
    unfold shakeAfter
    split_ifs <;> omega
  constructor
  · intro h i box hi
    exact (hcall i box hi).mp (h _ (mem_published.mpr ⟨i, box, hi, rfl⟩))
  · intro h p hp
    obtain ⟨i, box, hi, rfl⟩ := mem_published.mp hp
    exact (hcall i box hi).mpr (h i box hi)

def leftEdgeBox : ImageRect := { left := 0, top := 0, right := 100, bottom := 100 }

/-- The first call, for a box at the left border, publishes 35. -/
theorem first_call_out_of_range :
    (∀ b ∈ [leftEdgeBox], InFrame b) ∧ ¬ ∀ p ∈ published [leftEdgeBox], p.InTurretRange := by
  have hbox : ∀ b ∈ [leftEdgeBox], InFrame b := by
    intro b hb
    rw [List.mem_singleton.mp hb]
    constructor <;> decide
  refine ⟨hbox, ?_⟩
  intro h
  have hmem : (⟨35, 50⟩ : Coordinate) ∈ published [leftEdgeBox] := by decide +kernel
  exact absurd (h _ hmem).x_ge (by decide)

theorem published_inTurretRange_iff_leftEdgeBox :
    (∀ b ∈ [leftEdgeBox], InFrame b) ∧
      ((∀ p ∈ published [leftEdgeBox], p.InTurretRange) ↔
        ∀ i box, [leftEdgeBox][i]? = some box →
          (i % 2 = 0 → 96 ≤ box.left) ∧ (i % 2 ≠ 0 → box.left ≤ 1843)) := by
  have hbox : ∀ b ∈ [leftEdgeBox], InFrame b := by
    intro b hb
    rw [List.mem_singleton.mp hb]
    constructor <;> decide
  exact ⟨hbox, published_inTurretRange_iff _ hbox⟩

/-! ## The calls of a run -/

def aimFrame (w : Globals × List ImageRect) (frame : FrameInput) :
    Option (Globals × List ImageRect) := do
  let (g, _) ← pollingdecetbox w.1
  let st ← drawResult g frame.results frame.readings
  some (st.globals, w.2 ++ st.aims)

def mainAims (frames : List FrameInput) : Option (Globals × List ImageRect) :=
  frames.foldlM aimFrame (imageHanldeInit .static, [])

/-- `draw_result` keeps the turret in its range: its boxes lie inside the crop. -/
theorem mainAims_inTurretRange (frames : List FrameInput)
    (hframes : ∀ frame ∈ frames, Mappable frame.results) :
    ∃ g boxes, mainAims frames = some (g, boxes) ∧ ∀ p ∈ published boxes, p.InTurretRange := by
  have hrule := foldlM_list_rule (l := frames) (f := aimFrame) (s := (imageHanldeInit .static, []))
    (fun _ w => Configured w.1 ∧ ∀ box ∈ w.2, InCrop 420 box)
    ⟨configured_init, fun _ h => absurd h List.not_mem_nil⟩ ?_
  · obtain ⟨⟨g, boxes⟩, hrun, -, hboxes⟩ := hrule
    exact ⟨g, boxes, hrun, published_of_inCrop hboxes⟩
  · rintro done frame rest ⟨g, boxes⟩ hsplit ⟨hg, hboxes⟩
    have hmem : frame ∈ frames := by
      rw [hsplit]
      simp
    obtain ⟨g₁, hcrop, hg₁, -⟩ := pollingdecetbox_spec hg
    obtain ⟨st, hdraw, hst, -⟩ := drawResult_spec hg₁.toConfigured frame.results frame.readings
    refine ⟨(st.globals, boxes ++ st.aims), ?_, hst, ?_⟩
    · simp only [aimFrame, hcrop, hdraw, Option.bind_eq_bind, Option.bind_some]
    · intro box hbox
      rcases List.mem_append.mp hbox with hold | hnew
      · exact hboxes box hold
      · exact drawResult_aims_inCrop hg₁ (hframes frame hmem) hdraw box hnew

end CatDect.Mqtt
