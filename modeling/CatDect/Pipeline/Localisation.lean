import CatDect.Pipeline.Delivery
import CatDect.Postprocess.Decode

/-!
# From the model image back to the camera frame

Every box that `draw_result` maps comes from `post_process` for the 640x640 model, every
frame is cropped at the same offset, and `letterbox` scales every crop alike.  So a mapped
box lies in the crop its detection was inferred from, however far the result lags behind
the frame being drawn.
-/

namespace CatDect.Pipeline

open CatDect.Support CatDect.Postprocess CatDect.ImageHandle

/-! ## Without the queue -/

structure SyncState where
  globals : Globals
  frame : ℕ
  runResult : Result
  offsets : List ℤ
  drawn : List Drawn

/-- `run_result` is not initialised before the loop. -/
def SyncState.init (uninitialised : ObjectDetectResultList) : SyncState where
  globals := imageHanldeInit .static
  frame := 0
  runResult := ⟨uninitialised, none⟩
  offsets := []
  drawn := []

/-- One iteration of that loop; copying from an image without data is undefined. -/
def syncFrame (env : Env) (s : SyncState) : Option SyncState := do
  let (g, roi) ← pollingdecetbox s.globals
  if env.rga s.frame = .importFailed then none
  else do
    let runResult := if env.rknnRun s.frame < 0 then s.runResult
      else ⟨env.postProcess s.frame, some (.frame s.frame)⟩
    let st ← drawResult g runResult.list (env.readings s.frame)
    some
      { globals := st.globals
        frame := s.frame + 1
        runResult := runResult
        offsets := s.offsets ++ [roi.x]
        drawn := s.drawn ++ [⟨runResult, st.printed, st.aims⟩] }

def syncRun (env : Env) (uninitialised : ObjectDetectResultList) (frames : ℕ) :
    Option SyncState :=
  (List.range frames).foldlM (fun s _ => syncFrame env s) (.init uninitialised)

def SyncState.inferred (env : Env) (s : SyncState) : Result :=
  if env.rknnRun s.frame < 0 then s.runResult
  else ⟨env.postProcess s.frame, some (.frame s.frame)⟩

theorem syncFrame_importFailed {env : Env} {s : SyncState} (h : Configured s.globals)
    (hfail : env.rga s.frame = .importFailed) : syncFrame env s = none := by
  obtain ⟨g, hcrop, -⟩ := pollingdecetbox_spec h
  simp only [syncFrame, hcrop, Option.bind_eq_bind, Option.bind_some, if_pos hfail]

theorem syncFrame_spec {env : Env} {s : SyncState} (h : Configured s.globals)
    (himport : env.rga s.frame ≠ .importFailed) :
    ∃ g st, Cropped g ∧ drawResult g (s.inferred env).list (env.readings s.frame) = some st ∧
      Configured st.globals ∧ syncFrame env s = some
        { globals := st.globals
          frame := s.frame + 1
          runResult := s.inferred env
          offsets := s.offsets ++ [420]
          drawn := s.drawn ++ [⟨s.inferred env, st.printed, st.aims⟩] } := by
  obtain ⟨g, hcrop, hg, -⟩ := pollingdecetbox_spec h
  obtain ⟨st, hdraw, hst, -⟩ :=
    drawResult_spec hg.toConfigured (s.inferred env).list (env.readings s.frame)
  refine ⟨g, st, hg, hdraw, hst, ?_⟩
  unfold SyncState.inferred at hdraw
  simp only [syncFrame, hcrop, Option.bind_eq_bind, Option.bind_some, if_neg himport, hdraw]
  rfl

theorem syncRun_succ (env : Env) (uninitialised : ObjectDetectResultList) (n : ℕ) :
    syncRun env uninitialised (n + 1) = (syncRun env uninitialised n).bind (syncFrame env) := by
  rw [syncRun, List.range_succ, List.foldlM_append]
  simp only [List.foldlM_cons, List.foldlM_nil, bind_pure]
  rfl

/-! ## Mapped boxes -/

def Produced (l : ObjectDetectResultList) : Prop :=
  ∃ (ctx : AppContext) (outputs : List (List ℤ)) (confThreshold nmsThreshold : ℚ),
    ctx.modelWidth = 640 ∧ ctx.modelHeight = 640 ∧
    postProcess ctx outputs confThreshold nmsThreshold = some l

def Mappable (l : ObjectDetectResultList) : Prop := ∀ e ∈ l.reported, e.box.Inside 640 640

theorem Produced.mappable {l : ObjectDetectResultList} (h : Produced l) : Mappable l := by
  obtain ⟨ctx, outputs, conf, nms, hw, hh, hrun⟩ := h
  intro e he
  obtain ⟨c, hc, rfl⟩ := postProcess_wellFormed hrun e he
  rw [hw, hh]
  exact hc.report_inside (by decide) (by decide)

/-- A box of the model image in the camera frame, for a crop at offset `R`. -/
def localise (R : ℤ) (box : ImageRect) : ImageRect where
  left := R + 27 * box.left / 16
  top := 27 * box.top / 16
  right := R + 27 * box.right / 16
  bottom := 27 * box.bottom / 16

structure InCrop (R : ℤ) (box : ImageRect) : Prop where
  left_ge : R ≤ box.left
  left_le : box.left ≤ box.right
  right_le : box.right ≤ R + 1080
  crop_le : R + 1080 ≤ rawImageWidth
  top_nonneg : 0 ≤ box.top
  top_le : box.top ≤ box.bottom
  bottom_le : box.bottom ≤ rawImageHeight

structure InFrame (box : ImageRect) : Prop where
  left_nonneg : 0 ≤ box.left
  left_le : box.left ≤ box.right
  right_le : box.right ≤ rawImageWidth
  top_nonneg : 0 ≤ box.top
  top_le : box.top ≤ box.bottom
  bottom_le : box.bottom ≤ rawImageHeight

structure Localised (R : ℤ) (d : Drawn) : Prop where
  printed_eq : d.printed = (d.result.list.reported.filter fun e => IsTarget e).map
    fun e => { e with box := localise R e.box }
  in_crop : ∀ e ∈ d.printed, InCrop R e.box
  aims_in_frame : ∀ box ∈ d.aims, InFrame box

theorem mapBox_eq_localise {g : Globals} (hg : Cropped g) {box : ImageRect}
    (hbox : box.Inside 640 640) : mapBox g box = localise 420 box := by
  obtain ⟨h1, h2, h3, h4, h5, h6⟩ := hbox
  rw [mapBox, mapCoordinates_cropped hg h1 h4,
    mapCoordinates_cropped hg (h1.trans h2) (h4.trans h5), localise]

theorem localise_inCrop {box : ImageRect} (hbox : box.Inside 640 640) :
    InCrop 420 (localise 420 box) := by
  obtain ⟨h1, h2, h3, h4, h5, h6⟩ := hbox
  simp only [localise]
  exact ⟨by dsimp only; omega, by dsimp only; omega, by dsimp only; omega, by decide,
    by dsimp only; omega, by dsimp only; omega, by dsimp only [rawImageHeight]; omega⟩

theorem InCrop.inFrame {R : ℤ} (hR : 0 ≤ R) {box : ImageRect} (h : InCrop R box) :
    InFrame box :=
  ⟨hR.trans h.left_ge, h.left_le, h.right_le.trans h.crop_le, h.top_nonneg, h.top_le,
    h.bottom_le⟩

theorem drawResult_aims_inCrop {g : Globals} (hg : Cropped g) {l : ObjectDetectResultList}
    (hl : Mappable l) {readings : ℕ → Reading} {st : DrawState}
    (hdraw : drawResult g l readings = some st) : ∀ box ∈ st.aims, InCrop 420 box := by
  obtain ⟨st', hdraw', -, -, haims, -⟩ := drawResult_spec hg.toConfigured l readings
  have hsame := Option.some.inj (hdraw.symm.trans hdraw')
  subst hsame
  intro box hbox
  obtain ⟨e, he, rfl⟩ := List.mem_map.mp (haims.subset hbox)
  have hinside := hl e (List.mem_of_mem_filter he)
  rw [mapBox_eq_localise hg hinside]
  exact localise_inCrop hinside

theorem drawResult_localised {g : Globals} (hg : Cropped g) {r : Result}
    (hr : Mappable r.list) {readings : ℕ → Reading} {st : DrawState}
    (hdraw : drawResult g r.list readings = some st) :
    Localised 420 ⟨r, st.printed, st.aims⟩ := by
  obtain ⟨st', hdraw', -, hprinted, -⟩ := drawResult_spec hg.toConfigured r.list readings
  have hsame := Option.some.inj (hdraw.symm.trans hdraw')
  subst hsame
  have hmapped : st.printed = (r.list.reported.filter fun e => IsTarget e).map
      fun e => { e with box := localise 420 e.box } := by
    rw [hprinted]
    apply List.map_congr_left
    intro e he
    rw [mapBox_eq_localise hg (hr e (List.mem_of_mem_filter he))]
  refine ⟨hmapped, ?_, ?_⟩
  · intro e he
    have he : e ∈ st.printed := he
    rw [hmapped, List.mem_map] at he
    obtain ⟨e', he', rfl⟩ := he
    exact localise_inCrop (hr e' (List.mem_of_mem_filter he'))
  · intro box hbox
    exact (drawResult_aims_inCrop hg hr hdraw box hbox).inFrame (by decide)

/-! ## In every run -/

structure Mapped (s : State) : Prop where
  odResults : ∀ i, Mappable (s.odResults i).list
  runResult : Mappable s.runResult.list
  drawn : ∀ d ∈ s.drawn, Localised 420 d

theorem mappable_zero : Mappable .zero := fun _ he => absurd he List.not_mem_nil

theorem mapped_init : Mapped .init where
  odResults := fun _ => mappable_zero
  runResult := mappable_zero
  drawn := fun _ hd => absurd hd List.not_mem_nil

section Mapped

variable {env : Env} {s : State}

theorem Mapped.mainStep (h : Mapped s) (hc : Control s) : Mapped (mainStep env s) := by
  obtain ⟨hod, hrun, hdrawn⟩ := h
  cases hpc : s.main with
  | draw =>
      obtain ⟨st, hdraw, -, hstep⟩ := hc.toMainSide.draw env hpc
      have hg : Cropped s.globals := hc.cropped (by simp [hpc])
      rw [hstep]
      refine ⟨hod, hrun, ?_⟩
      intro d hd
      rcases List.mem_append.mp hd with hd | hd
      · exact hdrawn d hd
      · rw [List.mem_singleton.mp hd]
        exact drawResult_localised hg hrun hdraw
  | getCopy i =>
      unfold Pipeline.mainStep
      simp only [hpc]
      exact ⟨hod, hod i, hdrawn⟩
  | poll | resize | addRead i | getRead i =>
      unfold Pipeline.mainStep
      simp only [hpc]
      split <;> exact ⟨hod, hrun, hdrawn⟩
  | clear | addStore i | addSet i | getClear i | aborted =>
      unfold Pipeline.mainStep
      simp only [hpc]
      exact ⟨hod, hrun, hdrawn⟩

theorem Mapped.threadStep (h : Mapped s) (hproduced : ∀ n, Produced (env.postProcess n)) :
    Mapped (threadStep env s) := by
  obtain ⟨hod, hrun, hdrawn⟩ := h
  cases hpc : s.thread with
  | infer i =>
      unfold Pipeline.threadStep
      simp only [hpc]
      refine ⟨?_, hrun, hdrawn⟩
      intro j
      split
      · exact hod j
      · simp only [Function.update_apply]
        split
        · exact (hproduced _).mappable
        · exact hod j
  | scan i | check | copy i =>
      unfold Pipeline.threadStep
      simp only [hpc]
      split <;> exact ⟨hod, hrun, hdrawn⟩
  | clearResize i | setDo i | crashed =>
      unfold Pipeline.threadStep
      simp only [hpc]
      exact ⟨hod, hrun, hdrawn⟩

theorem mapped_after (hproduced : ∀ n, Produced (env.postProcess n)) (schedule : List Proc) :
    Mapped (after env schedule) := by
  have hstep : ∀ s p, Control s ∧ Mapped s → Control (step env s p) ∧ Mapped (step env s p) := by
    intro s p h
    cases p with
    | main => exact ⟨h.1.step .main, h.2.mainStep h.1⟩
    | thread => exact ⟨h.1.step .thread, h.2.threadStep hproduced⟩
  exact (run_invariant (I := fun s => Control s ∧ Mapped s) ⟨control_init, mapped_init⟩ hstep
    schedule).2

end Mapped

structure SyncInv (n : ℕ) (s : SyncState) : Prop where
  configured : Configured s.globals
  frame_eq : s.frame = n
  offsets_eq : s.offsets = List.replicate n 420
  runResult_source : s.runResult.source = none ∨
    ∃ k < n, s.runResult.source = some (.frame k) ∧ Mappable s.runResult.list
  drawn : ∀ d ∈ s.drawn, d.result.source = none ∨
    ∃ k < n, d.result.source = some (.frame k) ∧ Localised 420 d

theorem syncInv_init (uninitialised : ObjectDetectResultList) :
    SyncInv 0 (.init uninitialised) where
  configured := configured_init
  frame_eq := rfl
  offsets_eq := rfl
  runResult_source := .inl rfl
  drawn := fun _ hd => absurd hd List.not_mem_nil

theorem SyncInv.syncFrame {env : Env} (hproduced : ∀ n, Produced (env.postProcess n)) {n : ℕ}
    {s s' : SyncState} (h : SyncInv n s) (hrun : syncFrame env s = some s') :
    SyncInv (n + 1) s' := by
  by_cases himport : env.rga s.frame = .importFailed
  · exact absurd (hrun.symm.trans (syncFrame_importFailed h.configured himport)) (by simp)
  · obtain ⟨g, st, hg, hdraw, hst, hframe⟩ := syncFrame_spec h.configured himport
    have hsame := Option.some.inj (hframe.symm.trans hrun)
    subst hsame
    have hsource : (s.inferred env).source = none ∨ ∃ k < n + 1,
        (s.inferred env).source = some (.frame k) ∧ Mappable (s.inferred env).list := by
      unfold SyncState.inferred
      split
      · exact h.runResult_source.imp id fun ⟨k, hk, hsrc, hmap⟩ => ⟨k, by omega, hsrc, hmap⟩
      · exact .inr ⟨s.frame, by rw [h.frame_eq]; omega, rfl, (hproduced _).mappable⟩
    refine ⟨hst, by rw [h.frame_eq], ?_, hsource, ?_⟩
    · rw [h.offsets_eq]
      exact (List.replicate_succ' ..).symm
    · intro d hd
      rcases List.mem_append.mp hd with hd | hd
      · exact (h.drawn d hd).imp id fun ⟨k, hk, hloc⟩ => ⟨k, by omega, hloc⟩
      · rw [List.mem_singleton.mp hd]
        exact hsource.imp id fun ⟨k, hk, hsrc, hmap⟩ =>
          ⟨k, hk, hsrc, drawResult_localised hg hmap hdraw⟩

theorem syncRun_inv {env : Env} (hproduced : ∀ n, Produced (env.postProcess n))
    (uninitialised : ObjectDetectResultList) (frames : ℕ) {s : SyncState}
    (hrun : syncRun env uninitialised frames = some s) : SyncInv frames s := by
  induction frames generalizing s with
  | zero =>
      have hsame := Option.some.inj hrun
      subst hsame
      exact syncInv_init uninitialised
  | succ n ih =>
      rw [syncRun_succ] at hrun
      obtain ⟨s₁, hs₁, hlast⟩ := Option.bind_eq_some_iff.mp hrun
      exact (ih hs₁).syncFrame hproduced hlast

/-- In the pipeline, every list that stems from a frame is mapped out of the crop of that
frame, and every aim command lies inside the camera frame. -/
def AsyncLocalised (env : Env) : Prop :=
  ∀ schedule, ∀ d ∈ (after env schedule).drawn,
    (∀ f, d.result.source = some (.frame f) →
      ∃ R, (after env schedule).offsets[f]? = some R ∧ Localised R d) ∧
    ∀ box ∈ d.aims, InFrame box

def SyncLocalised (env : Env) : Prop :=
  ∀ uninitialised frames s, syncRun env uninitialised frames = some s → ∀ d ∈ s.drawn,
    ∀ f, d.result.source = some (.frame f) → ∃ R, s.offsets[f]? = some R ∧ Localised R d

/-- **Detections are localised.**  In both modes, in every interleaving and whatever fails,
a box `(l, t, r, b)` of the model image is mapped to `R + ⌊27 l / 16⌋` and so on, where `R` is
the offset at which the frame it was detected in was cropped, and lies inside that crop. -/
theorem detections_localised (env : Env) (hproduced : ∀ n, Produced (env.postProcess n)) :
    AsyncLocalised env ∧ SyncLocalised env := by
  constructor
  · intro schedule d hd
    have hloc := (mapped_after hproduced schedule).drawn d hd
    constructor
    · intro f hf
      have hlt : f < (after env schedule).offsets.length :=
        (sourced_after env schedule).drawn d hd _ hf
      have hoffsets := (book_after env schedule).offsets_eq
      rw [hoffsets, List.length_replicate] at hlt
      refine ⟨420, ?_, hloc⟩
      rw [hoffsets, List.getElem?_replicate, if_pos hlt]
    · exact hloc.aims_in_frame
  · intro uninitialised frames s hrun d hd f hf
    have hinv := syncRun_inv hproduced uninitialised frames hrun
    rcases hinv.drawn d hd with hnone | ⟨k, hk, hsource, hloc⟩
    · exact absurd (hnone.symm.trans hf) (by simp)
    · have hkf : k = f := Pixels.frame.inj (Option.some.inj (hsource.symm.trans hf))
      refine ⟨420, ?_, hloc⟩
      rw [hinv.offsets_eq, List.getElem?_replicate, if_pos (hkf ▸ hk)]

/-! ## One detection -/

def oneCellContext : AppContext where
  outputAttrs := List.replicate 3 { dims := [1, 1, 1, 255], zp := 0, scale := 1 / 100 }
  modelWidth := 640
  modelHeight := 640
  isQuant := true

def oneCatOutputs : List (List ℤ) :=
  [[25, 25, 50, 50, 90] ++ List.replicate 15 0 ++ [90] ++ List.replicate 234 0,
    List.replicate 255 0, List.replicate 255 0]

def oneCatList : ObjectDetectResultList :=
  singleResult
    { box := { left := 0, top := 0, right := 5, bottom := 6 }, prop := 81 / 100, clsId := 15 }

def oneCatEnv : Env := { quietEnv with postProcess := fun _ => oneCatList }

theorem oneCatList_produced : Produced oneCatList :=
  ⟨oneCellContext, oneCatOutputs, 1 / 4, 9 / 20, rfl, rfl, by decide +kernel⟩

theorem detections_localised_oneCatEnv : AsyncLocalised oneCatEnv ∧ SyncLocalised oneCatEnv :=
  detections_localised oneCatEnv fun _ => oneCatList_produced

end CatDect.Pipeline
