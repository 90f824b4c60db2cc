import CatDect.Pipeline.Queue

/-!
# The size of the queued images

`rknn_thread` copies a fixed number of bytes from the image in the slot.  Two of the three
return paths of `letterbox` give an image of that size; the third, taken when a buffer
cannot be imported, returns an image without data, which is queued all the same.
-/

namespace CatDect.Pipeline

open CatDect.Support CatDect.ImageHandle

/-! ## Sizes -/

def Mat.size (g : Globals) : Mat → ℤ × ℤ
  | .empty => (0, 0)
  | .view => (g.detectManage.modelWidth, g.detectManage.modelHeight)
  | .own _ => (640, 640)

/-- The bytes of its data; the type is `CV_8UC3`. -/
def Mat.bytes (g : Globals) (m : Mat) : ℤ := (m.size g).1 * (m.size g).2 * 3

/-- `model_width*model_height*3`, the variables being set from `detect_manage`. -/
def copyBytes (g : Globals) : ℤ := g.detectManage.modelWidth * g.detectManage.modelHeight * 3

/-- A `memcpy` of `rknn_thread` reads from the slot that `idx` names, and the image there is
not empty and has as many bytes as are copied. -/
def CopyFits (s : State) (p : Proc) : Prop :=
  p = .thread → ∀ i, s.thread = .copy i →
    s.idx = some i ∧ (s.resizeImages i).image ≠ .empty ∧
      (s.resizeImages i).image.bytes s.globals = copyBytes s.globals

def SlotImported (env : Env) (s : State) (p : Proc) : Prop :=
  p = .thread → ∀ i k, s.thread = .copy i → (s.resizeImages i).frame = some k →
    env.rga k ≠ .importFailed

section Size

variable {env : Env} {s : State}

theorem letterboxMat_bytes {g : Globals} (hg : Configured g) {k : ℕ}
    (h : env.rga k ≠ .importFailed) :
    env.letterboxMat k ≠ .empty ∧ (env.letterboxMat k).bytes g = copyBytes g := by
  unfold Env.letterboxMat
  cases hrga : env.rga k with
  | importFailed => exact absurd hrga h
  | resized => exact ⟨by simp, rfl⟩
  | resizeFailed =>
      refine ⟨by simp, ?_⟩
      unfold copyBytes
      rw [hg.modelWidth_eq, hg.modelHeight_eq]
      rfl

theorem letterboxMat_empty {k : ℕ} (h : env.rga k = .importFailed) :
    env.letterboxMat k = .empty := by
  unfold Env.letterboxMat
  rw [h]

theorem copyFits_iff (hc : Control s) (hb : Book s) (hv : Views env s) (p : Proc) :
    CopyFits s p ↔ SlotImported env s p := by
  constructor
  · intro hfits hp i k hpc hslot himport
    have hi : i = 0 := hc.thread_at hpc
    subst hi
    apply (hfits hp 0 hpc).2.1
    rw [hv.slot_eq k hslot, letterboxMat_empty himport]
  · intro himported hp i hpc
    have hi : i = 0 := hc.thread_at hpc
    subst hi
    have hidx := hc.copy_idx 0 hpc
    obtain ⟨k, hslot⟩ := Option.ne_none_iff_exists'.mp (hb.idx_frame (by rw [hidx]; simp))
    rw [hv.slot_eq k hslot]
    exact ⟨hidx, letterboxMat_bytes hc.configured (himported hp 0 k hpc hslot)⟩

theorem views_after (env : Env) (schedule : List Proc) :
    (Control (after env schedule) ∧ Book (after env schedule)) ∧
      Views env (after env schedule) :=
  run_invariant (I := fun s => (Control s ∧ Book s) ∧ Views env s)
    ⟨⟨control_init, book_init⟩, views_init env⟩ (fun _ p h => Views.step h p) schedule

theorem along_copyFits_iff (env : Env) (schedule : List Proc) :
    Along (step env) .init CopyFits schedule ↔
      Along (step env) .init (SlotImported env) schedule := by
  have hinv : Throughout (step env) .init (fun s => (Control s ∧ Book s) ∧ Views env s)
      schedule := fun start _ => views_after env start
  exact hinv.along_congr fun s p h => copyFits_iff h.1.1 h.1.2 h.2 p

end Size

/-! ## One frame after the other -/

theorem after_append (env : Env) (first rest : List Proc) :
    after env (first ++ rest) = run (step env) (after env first) rest :=
  run_append (step env) .init first rest

section Rest

variable {env : Env} {s : State}

theorem offer_image (env : Env) (hc : Control s) (hmain : s.main = .poll) :
    (run (step env) s (steps .main 6)).main = .getRead 0 ∧
      (run (step env) s (steps .main 6)).thread = s.thread ∧
      (run (step env) s (steps .main 6)).frame = s.frame ∧
      (run (step env) s (steps .main 6)).resizeOk 0 = true := by
  obtain ⟨g, hpoll, -⟩ := hc.toMainSide.poll env hmain
  have hfree := hc.slot_free (by rw [hmain]; rfl)
  have hrun : run (step env) s (steps .main 6) =
      mainStep env (mainStep env (mainStep env (mainStep env (mainStep env (mainStep env s))))) :=
    rfl
  rw [hrun, hpoll]
  cases hrga : env.rga s.frame with
  | importFailed => simp [mainStep, hrga, hfree]
  | resized => simp [mainStep, hrga, hfree]
  | resizeFailed => simp [mainStep, hrga, hfree]

theorem slot_pixels (hb : Book s) (hv : Views env s) (hmain : s.main = .getRead 0)
    (himport : env.rga s.frame ≠ .importFailed) :
    (s.resizeImages 0).image.pixels s.dstBuf = some (.frame s.frame) := by
  have hslot := hb.slot_frame
  have hdst := hv.dstBuf_eq
  rw [hmain] at hslot hdst
  rw [hv.slot_eq s.frame hslot, hdst]
  unfold Env.letterboxMat Env.dstBufAt Env.letterboxDst
  cases hrga : env.rga s.frame with
  | importFailed => exact absurd hrga himport
  | resized => rfl
  | resizeFailed => rfl

theorem begin_copy (env : Env) (hthread : s.thread = .scan 0) (hset : s.resizeOk 0 = true) :
    run (step env) s (steps .thread 2) = { s with idx := some 0, thread := .copy 0 } := by
  have hrun : run (step env) s (steps .thread 2) = threadStep env (threadStep env s) := rfl
  rw [hrun]
  simp [threadStep, hthread, hset]

theorem finish_round (env : Env) (hthread : s.thread = .copy 0) {p : Pixels}
    (hpixels : (s.resizeImages 0).image.pixels s.dstBuf = some p) :
    run (step env) s (steps .thread 4) =
      { s with
        input := p
        taken := s.taken ++ [⟨(s.resizeImages 0).frame, p⟩]
        odResults := if env.rknnRun s.inferences < 0 then s.odResults
          else Function.update s.odResults 0 ⟨env.postProcess s.inferences, some p⟩
        inferences := s.inferences + 1
        resizeOk := Function.update s.resizeOk 0 false
        rkndoOk := Function.update s.rkndoOk 0 true
        thread := .scan 0 } := by
  have hrun : run (step env) s (steps .thread 4) =
      threadStep env (threadStep env (threadStep env (threadStep env s))) := rfl
  rw [hrun]
  simp [threadStep, hthread, hpixels]

theorem fetch_result (env : Env) (hc : Control s) (hmain : s.main = .getRead 0)
    (hdone : s.rkndoOk 0 = true) :
    (run (step env) s (steps .main 4)).main = .poll ∧
      (run (step env) s (steps .main 4)).thread = s.thread ∧
      (run (step env) s (steps .main 4)).frame = s.frame + 1 ∧
      ∃ printed aims, (run (step env) s (steps .main 4)).drawn =
        s.drawn ++ [⟨s.odResults 0, printed, aims⟩] := by
  have hrun : run (step env) s (steps .main 4) =
      mainStep env (run (step env) s (steps .main 3)) := rfl
  have hdraw : run (step env) s (steps .main 3) =
      { s with
        runResult := s.odResults 0
        resizeOk := Function.update s.resizeOk 0 false
        main := .draw } := by
    have hthree : run (step env) s (steps .main 3) =
        mainStep env (mainStep env (mainStep env s)) := rfl
    rw [hthree]
    simp [mainStep, hmain, hdone]
  have hreached : Control (run (step env) s (steps .main 3)) :=
    run_invariant hc (fun _ p h => h.step p) _
  rw [hdraw] at hreached
  obtain ⟨st, -, -, hstep⟩ := hreached.toMainSide.draw env rfl
  rw [hrun, hdraw, hstep]
  exact ⟨rfl, rfl, rfl, _, _, rfl⟩

theorem reach_copy {schedule : List Proc} (hmain : (after env schedule).main = .poll)
    (hthread : (after env schedule).thread = .scan 0) :
    (after env (schedule ++ steps .main 6 ++ steps .thread 2)).main = .getRead 0 ∧
      (after env (schedule ++ steps .main 6 ++ steps .thread 2)).thread = .copy 0 ∧
      (after env (schedule ++ steps .main 6 ++ steps .thread 2)).frame =
        (after env schedule).frame ∧
      ((after env (schedule ++ steps .main 6 ++ steps .thread 2)).resizeImages 0).frame =
        some (after env schedule).frame := by
  obtain ⟨⟨-, hbook⟩, -⟩ := views_after env (schedule ++ steps .main 6 ++ steps .thread 2)
  have hslot := hbook.slot_frame
  obtain ⟨hget, hscan, hframe, hset⟩ :=
    offer_image env (control_after env schedule) hmain
  have hcopy : after env (schedule ++ steps .main 6 ++ steps .thread 2) =
      { run (step env) (after env schedule) (steps .main 6) with
        idx := some 0
        thread := .copy 0 } := by
    rw [after_append, after_append]
    exact begin_copy env (hscan.trans hthread) hset
  rw [hcopy] at hslot ⊢
  rw [hget, hframe] at hslot
  exact ⟨hget, rfl, hframe, hslot⟩

def turns : ℕ → List Proc
  | 0 => []
  | n + 1 => turns n ++ steps .main 6 ++ steps .thread 2 ++ steps .thread 4 ++ steps .main 4

theorem turns_reach {n : ℕ} (h : ∀ k < n, env.rga k ≠ .importFailed) :
    (after env (turns n)).main = .poll ∧ (after env (turns n)).thread = .scan 0 ∧
      (after env (turns n)).frame = n := by
  induction n with
  | zero => exact ⟨rfl, rfl, rfl⟩
  | succ n ih =>
      obtain ⟨hmain, hthread, hframe⟩ := ih fun k hk => h k (Nat.lt_succ_of_lt hk)
      obtain ⟨hget, hcopy, hkept, -⟩ := reach_copy hmain hthread
      obtain ⟨⟨-, hbook⟩, hviews⟩ :=
        views_after env (turns n ++ steps .main 6 ++ steps .thread 2)
      have himport : env.rga (after env
          (turns n ++ steps .main 6 ++ steps .thread 2)).frame ≠ .importFailed := by
        rw [hkept, hframe]
        exact h n (Nat.lt_succ_self n)
      have hround := finish_round env hcopy (slot_pixels hbook hviews hget himport)
      have hcontrol := control_after env
        (turns n ++ steps .main 6 ++ steps .thread 2 ++ steps .thread 4)
      rw [after_append, hround] at hcontrol
      obtain ⟨hpoll, hstill, hnext, -⟩ := fetch_result env hcontrol hget (by simp)
      rw [turns, after_append, after_append _ (turns n ++ steps .main 6 ++ steps .thread 2), hround]
      refine ⟨hpoll, hstill, hnext.trans ?_⟩
      show (after env (turns n ++ steps .main 6 ++ steps .thread 2)).frame + 1 = n + 1
      omega

end Rest

/-! ## When the queued images have the size of the model -/

/-- In one run every `memcpy` fits exactly if both buffers were imported for every frame whose
image is copied; and every `memcpy` of every run fits exactly if no import fails. -/
theorem copyFits_iff_imported (env : Env) :
    (∀ schedule, Along (step env) .init CopyFits schedule ↔
      Along (step env) .init (SlotImported env) schedule) ∧
    ((∀ schedule, Along (step env) .init CopyFits schedule) ↔
      ∀ k, env.rga k ≠ .importFailed) := by
  refine ⟨along_copyFits_iff env, ?_⟩
  constructor
  · intro hfits k
    induction k using Nat.strongRecOn with
    | _ k ih =>
        obtain ⟨hmain, hthread, hframe⟩ := turns_reach ih
        obtain ⟨-, hcopy, -, hslot⟩ := reach_copy hmain hthread
        have himported := (along_copyFits_iff env _).mp
          (hfits (turns k ++ steps .main 6 ++ steps .thread 2 ++ [.thread]))
        exact himported _ .thread (List.prefix_refl _) rfl 0 k hcopy
          (hslot.trans (congrArg some hframe))
  · intro himport schedule
    apply (along_copyFits_iff env schedule).mpr
    intro start p _ _ i k _ _
    exact himport k

def unimportedEnv : Env := { quietEnv with rga := fun _ => .importFailed }

theorem empty_image_copied :
    ¬ Along (step unimportedEnv) .init CopyFits (steps .main 6 ++ steps .thread 3) := by
  intro h
  have hfits := h (steps .main 6 ++ steps .thread 2) .thread (List.prefix_refl _) rfl 0 rfl
  exact hfits.2.1 rfl

end CatDect.Pipeline
