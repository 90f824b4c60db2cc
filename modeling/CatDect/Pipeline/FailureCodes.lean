import CatDect.Pipeline.Failures
import CatDect.Pipeline.Liveness
import CatDect.Pipeline.Ownership

/-!
# The return codes that do no harm

Which return codes of `rknn_run` make every interleaving harmless, although neither caller looks
at them.  For the other codes a schedule is built that draws a list for a frame it does not
stem from: `rknn_thread` runs the network on the first frame until the call that fails is due,
and `main` brings up a later frame for that call.
-/

namespace CatDect.Pipeline

open CatDect.Support CatDect.Postprocess CatDect.ImageHandle

/-! ## Schedules up to a failing call -/

section Schedules

variable {env : Env} {s : State} {n k : ℕ}

theorem mainKeeps_run (env : Env) (s : State) (n : ℕ) :
    MainKeeps s (run (step env) s (steps .main n)) := by
  induction n with
  | zero => exact ⟨rfl, rfl, rfl, rfl, rfl, rfl, rfl⟩
  | succ n ih =>
      have hlast : run (step env) s (steps .main (n + 1)) =
          mainStep env (run (step env) s (steps .main n)) := by
        rw [steps, List.replicate_succ', run_append_singleton]
        rfl
      have hk := mainKeeps env (run (step env) s (steps .main n))
      rw [hlast]
      exact ⟨hk.thread_eq.trans ih.thread_eq, hk.idx_eq.trans ih.idx_eq,
        hk.input_eq.trans ih.input_eq, hk.inferences_eq.trans ih.inferences_eq,
        hk.rkndoOk_eq.trans ih.rkndoOk_eq, hk.odResults_eq.trans ih.odResults_eq,
        hk.taken_eq.trans ih.taken_eq⟩

/-- `main` waits for the result of the first frame, and `rknn_thread` has made `n` calls of
`rknn_run` on its image and keeps the slot in `idx`. -/
structure FirstFrame (env : Env) (n : ℕ) (s : State) : Prop where
  main_eq : s.main = .getRead 0
  frame_eq : s.frame = 0
  idx_eq : s.idx = some 0
  inferences_eq : s.inferences = n
  source_eq : (s.odResults 0).source = (lastSuccess env n).map fun _ => .frame 0
  pixels_eq : (s.resizeImages 0).image.pixels s.dstBuf = some (.frame 0)

theorem FirstFrame.infer (h : FirstFrame env n s) (hthread : s.thread = .copy 0) :
    FirstFrame env (n + 1) (run (step env) s (steps .thread 4)) ∧
      (run (step env) s (steps .thread 4)).thread = .scan 0 ∧
      (run (step env) s (steps .thread 4)).resizeOk 0 = false ∧
      (run (step env) s (steps .thread 4)).rkndoOk 0 = true := by
  rw [finish_round env hthread h.pixels_eq]
  refine ⟨⟨h.main_eq, h.frame_eq, h.idx_eq, ?_, ?_, h.pixels_eq⟩, rfl, by simp, by simp⟩
  · show s.inferences + 1 = n + 1
    rw [h.inferences_eq]
  · dsimp only
    rw [h.inferences_eq, lastSuccess]
    split
    · exact h.source_eq
    · rw [Function.update_self, Option.map_some]

theorem scan_empty (env : Env) (hthread : s.thread = .scan 0) (hzero : s.resizeOk 0 = false)
    (hone : s.resizeOk 1 = false) (hidx : s.idx = some 0) :
    run (step env) s (steps .thread 3) = { s with thread := .copy 0 } := by
  have hrun : run (step env) s (steps .thread 3) =
      threadStep env (threadStep env (threadStep env s)) := rfl
  rw [hrun]
  simp [threadStep, hthread, hzero, hone, hidx]

theorem reach_calls (himport : env.rga 0 ≠ .importFailed) (n : ℕ) :
    ∃ schedule, FirstFrame env (n + 1) (after env schedule) ∧
      (after env schedule).thread = .scan 0 ∧ (after env schedule).resizeOk 0 = false ∧
      (after env schedule).rkndoOk 0 = true := by
  induction n with
  | zero =>
      obtain ⟨⟨-, hbook⟩, hviews⟩ := views_after env (steps .main 6)
      obtain ⟨hget, hthread, hframe, hset⟩ := offer_image env control_init rfl
      have hk := mainKeeps_run env .init 6
      have hpixels := slot_pixels hbook hviews hget (hframe ▸ himport)
      rw [show (after env (steps .main 6)).frame = 0 from hframe] at hpixels
      have hcopy : after env (steps .main 6 ++ steps .thread 2) =
          { after env (steps .main 6) with idx := some 0, thread := .copy 0 } := by
        rw [after_append]
        exact begin_copy env hthread hset
      have hfirst : FirstFrame env 0 (after env (steps .main 6 ++ steps .thread 2)) := by
        rw [hcopy]
        exact ⟨hget, hframe, rfl, hk.inferences_eq,
          congrArg (fun r => (r 0).source) hk.odResults_eq, hpixels⟩
      refine ⟨steps .main 6 ++ steps .thread 2 ++ steps .thread 4, ?_⟩
      rw [after_append]
      exact hfirst.infer (by rw [hcopy])
  | succ n ih =>
      obtain ⟨schedule, hfirst, hthread, hzero, -⟩ := ih
      have hone := (control_after env schedule).resizeOk_one
      have hcopy : after env (schedule ++ steps .thread 3) =
          { after env schedule with thread := .copy 0 } := by
        rw [after_append]
        exact scan_empty env hthread hzero hone hfirst.idx_eq
      have hnext : FirstFrame env (n + 1) (after env (schedule ++ steps .thread 3)) := by
        rw [hcopy]
        exact ⟨hfirst.main_eq, hfirst.frame_eq, hfirst.idx_eq, hfirst.inferences_eq,
          hfirst.source_eq, hfirst.pixels_eq⟩
      refine ⟨schedule ++ steps .thread 3 ++ steps .thread 4, ?_⟩
      rw [after_append]
      exact hnext.infer (by rw [hcopy])

/-- `main` is about to poll frame `k`, the first `n` calls were made on the first frame, and
their result is offered still. -/
structure Lagging (env : Env) (n k : ℕ) (s : State) : Prop where
  main_eq : s.main = .poll
  frame_eq : s.frame = k
  thread_eq : s.thread = .scan 0
  done : s.rkndoOk 0 = true
  inferences_eq : s.inferences = n
  source_eq : (s.odResults 0).source = (lastSuccess env n).map fun _ => .frame 0

theorem reach_lag (himport : env.rga 0 ≠ .importFailed) (n k : ℕ) :
    ∃ schedule, Lagging env (n + 1) (k + 1) (after env schedule) := by
  induction k with
  | zero =>
      obtain ⟨schedule, hfirst, hthread, -, hdone⟩ := reach_calls himport n
      obtain ⟨hpoll, hstill, hnext, -⟩ :=
        fetch_result env (control_after env schedule) hfirst.main_eq hdone
      have hk := mainKeeps_run env (after env schedule) 4
      refine ⟨schedule ++ steps .main 4, ?_⟩
      rw [after_append]
      exact ⟨hpoll, by rw [hnext, hfirst.frame_eq], hstill.trans hthread,
        by rw [hk.rkndoOk_eq, hdone], hk.inferences_eq.trans hfirst.inferences_eq,
        by rw [hk.odResults_eq, hfirst.source_eq]⟩
  | succ k ih =>
      obtain ⟨schedule, h⟩ := ih
      obtain ⟨hget, hthread, hframe, -⟩ := offer_image env (control_after env schedule) h.main_eq
      have hk := mainKeeps_run env (after env schedule) 6
      have hcontrol := control_after env (schedule ++ steps .main 6)
      rw [after_append] at hcontrol
      obtain ⟨hpoll, hstill, hnext, -⟩ :=
        fetch_result env hcontrol hget (by rw [hk.rkndoOk_eq, h.done])
      have hk' := mainKeeps_run env (run (step env) (after env schedule) (steps .main 6)) 4
      refine ⟨schedule ++ steps .main 6 ++ steps .main 4, ?_⟩
      rw [after_append, after_append]
      refine ⟨hpoll, by rw [hnext, hframe, h.frame_eq], hstill.trans (hthread.trans h.thread_eq),
        by rw [hk'.rkndoOk_eq, hk.rkndoOk_eq, h.done],
        hk'.inferences_eq.trans (hk.inferences_eq.trans h.inferences_eq),
        by rw [hk'.odResults_eq, hk.odResults_eq, h.source_eq]⟩

theorem first_code_of_harmless (himport : env.rga 0 ≠ .importFailed)
    (hharmless : ∀ schedule,
      NothingFromFailure env (after env schedule) (attemptsAfter env schedule).2) :
    0 ≤ env.rknnRun 0 := by
  by_contra hfail
  obtain ⟨schedule, hfirst, -, -, hdone⟩ := reach_calls himport 0
  obtain ⟨-, -, -, printed, aims, hdrawn⟩ :=
    fetch_result env (control_after env schedule) hfirst.main_eq hdone
  have hlength := (book_after env schedule).drawn_length
  have hresult := hharmless (schedule ++ steps .main 4) 0
    ⟨(after env schedule).odResults 0, printed, aims⟩
  rw [after_append, hdrawn, ← hfirst.frame_eq, ← hlength, List.getElem?_concat_length] at hresult
  apply (hresult rfl).1
  have hsource := hfirst.source_eq
  rw [lastSuccess, if_pos (not_le.mp hfail), lastSuccess, Option.map_none] at hsource
  exact hsource

/-- `main` has drawn frame `k` from the list of the first frame, and the call of `rknn_run` on
its own image is due. -/
structure CallDue (n k : ℕ) (s : State) : Prop where
  thread_eq : s.thread = .infer 0
  input_eq : s.input = .frame k
  inferences_eq : s.inferences = n
  drawn : ∃ d, s.drawn[k]? = some d ∧ d.result.source = some (.frame 0)

theorem reach_due (himport : env.rga 0 ≠ .importFailed) (hsuccess : lastSuccess env (n + 1) ≠ none)
    (hk : env.rga (k + 1) ≠ .importFailed) :
    ∃ schedule, CallDue (n + 1) (k + 1) (after env schedule) := by
  obtain ⟨schedule, hlag⟩ := reach_lag himport n k
  -- frame `k + 1` is accepted
  obtain ⟨⟨-, hbook⟩, hviews⟩ := views_after env (schedule ++ steps .main 6)
  have hlength := (book_after env (schedule ++ steps .main 6)).drawn_length
  obtain ⟨hget, hthread, hframe, hset⟩ := offer_image env (control_after env schedule) hlag.main_eq
  have hkept := mainKeeps_run env (after env schedule) 6
  rw [← after_append] at hget hthread hframe hset hkept
  have hnumber : (after env (schedule ++ steps .main 6)).frame = k + 1 := hframe.trans hlag.frame_eq
  have hpixels := slot_pixels hbook hviews hget (hnumber ▸ hk)
  rw [hnumber] at hpixels hlength
  -- it is copied
  have hcopied : after env (schedule ++ steps .main 6 ++ steps .thread 3) =
      { after env (schedule ++ steps .main 6) with
        idx := some 0
        input := .frame (k + 1)
        taken := (after env (schedule ++ steps .main 6)).taken ++
          [⟨((after env (schedule ++ steps .main 6)).resizeImages 0).frame, .frame (k + 1)⟩]
        thread := .infer 0 } := by
    have hrun : run (step env) (after env (schedule ++ steps .main 6)) (steps .thread 3) =
        threadStep env (run (step env) (after env (schedule ++ steps .main 6)) (steps .thread 2)) :=
      rfl
    rw [after_append, hrun, begin_copy env (hthread.trans hlag.thread_eq) hset]
    simp only [threadStep, hpixels]
  -- and drawn from the list of the first frame before the call is made
  have hcontrol := control_after env (schedule ++ steps .main 6 ++ steps .thread 3)
  have hdone : (after env (schedule ++ steps .main 6 ++ steps .thread 3)).rkndoOk 0 = true := by
    rw [hcopied]
    exact (congrFun hkept.rkndoOk_eq 0).trans hlag.done
  obtain ⟨-, hstill, -, printed, aims, hdrawn⟩ :=
    fetch_result env hcontrol (by rw [hcopied]; exact hget) hdone
  have hkept' := mainKeeps_run env (after env (schedule ++ steps .main 6 ++ steps .thread 3)) 4
  refine ⟨schedule ++ steps .main 6 ++ steps .thread 3 ++ steps .main 4, ?_⟩
  rw [after_append]
  rw [hcopied] at hstill hdrawn hkept' ⊢
  refine ⟨hstill, hkept'.input_eq, hkept'.inferences_eq.trans
    (hkept.inferences_eq.trans hlag.inferences_eq),
    ⟨(after env (schedule ++ steps .main 6)).odResults 0, printed, aims⟩, ?_, ?_⟩
  · rw [hdrawn, ← hlength]
    exact List.getElem?_concat_length
  · show ((after env (schedule ++ steps .main 6)).odResults 0).source = some (.frame 0)
    rw [hkept.odResults_eq, hlag.source_eq]
    obtain ⟨j, hj⟩ := Option.ne_none_iff_exists'.mp hsuccess
    rw [hj]
    rfl

theorem later_codes_of_harmless (himport : env.rga 0 ≠ .importFailed) (hzero : 0 ≤ env.rknnRun 0)
    (hharmless : ∀ schedule,
      NothingFromFailure env (after env schedule) (attemptsAfter env schedule).2)
    (hk : env.rga (k + 1) ≠ .importFailed) : 0 ≤ env.rknnRun (n + 1) := by
  by_contra hfail
  obtain ⟨schedule, hdue⟩ := reach_due (n := n) himport
    (lastSuccess_ne_none.mpr ⟨0, Nat.succ_pos n, hzero⟩) hk
  obtain ⟨d, hd, hsource⟩ := hdue.drawn
  obtain ⟨hstate, hattempted⟩ := attempted_after env schedule
  have hlast : attemptsAfter env (schedule ++ [.thread]) =
      (threadStep env (after env schedule),
        { (attemptsAfter env schedule).2 with
          inputs := (attemptsAfter env schedule).2.inputs ++ [.frame (k + 1)] }) := by
    rw [attemptsAfter, run_append_singleton, watch, ← attemptsAfter, hstate]
    simp only [Attempts.next, hdue.thread_eq, hdue.input_eq]
    rfl
  have hresult := hharmless (schedule ++ [.thread]) (k + 1) d
  rw [← (attempted_after env _).1, hlast] at hresult
  dsimp only at hresult
  rw [(threadKeeps env _).drawn_eq] at hresult
  apply (hresult hd).2 _ 0 (Nat.succ_pos k) hsource
  refine ⟨n + 1, ?_, not_le.mp hfail⟩
  rw [← hdue.inferences_eq, ← hattempted.inputs_length]
  exact List.getElem?_concat_length

end Schedules

/-! ## Return codes that do no harm -/

/-- The images read so far are of imported frames, and no list was fetched before the first
call. -/
structure Served (env : Env) (s : State) (m : Attempts) : Prop where
  input_imported : ∀ k, s.input = .frame k → env.rga k ≠ .importFailed
  inputs_imported : ∀ k, .frame k ∈ m.inputs → env.rga k ≠ .importFailed
  raised : s.rkndoOk 0 = true ∨ (∃ i, s.thread = .clearResize i ∨ s.thread = .setDo i) ∨
    (∃ i, s.main = .getCopy i) → s.inferences ≠ 0
  fetched : s.main = .draw ∨ (∃ i, s.main = .getClear i) → m.fetch ≠ 0

theorem served_init (env : Env) : Served env .init .none where
  input_imported := fun _ h => absurd h (by simp [State.init])
  inputs_imported := fun _ h => absurd h List.not_mem_nil
  raised := by
    rintro (h | ⟨i, h | h⟩ | ⟨i, h⟩)
    · exact absurd h (by simp [State.init])
    · exact absurd h (by simp [State.init])
    · exact absurd h (by simp [State.init])
    · exact absurd h (by simp [State.init])
  fetched := by
    rintro (h | ⟨i, h⟩)
    · exact absurd h (by simp [State.init])
    · exact absurd h (by simp [State.init])

section Served

variable {env : Env} {s : State} {m : Attempts}

theorem Views.dstBuf_imported (h : Views env s) {k : ℕ} (hk : s.dstBuf = .frame k) :
    env.rga k ≠ .importFailed := by
  have hletter : ∀ j, env.letterboxDst j = .frame k → env.rga k ≠ .importFailed := by
    intro j hj
    obtain rfl := Env.letterboxDst_eq_frame hj
    intro hfail
    rw [Env.letterboxDst, if_neg (by simp [hfail])] at hj
    exact absurd hj (by simp)
  rw [h.dstBuf_eq] at hk
  cases hmain : s.main with
  | poll | clear =>
      rw [hmain] at hk
      simp only [Env.dstBufAt] at hk
      split at hk
      · exact absurd hk (by simp)
      · exact hletter _ hk
  | resize =>
      rw [hmain] at hk
      exact absurd hk (by simp [Env.dstBufAt])
  | addRead i | addStore i | addSet i | getRead i | getCopy i | getClear i | draw | aborted =>
      rw [hmain] at hk
      exact hletter _ hk

theorem Views.copied_imported (h : Views env s) (hc : Control s) (hb : Book s)
    (hthread : s.thread = .copy 0) {k : ℕ}
    (hpixels : (s.resizeImages 0).image.pixels s.dstBuf = some (.frame k)) :
    env.rga k ≠ .importFailed := by
  have hidx : s.idx ≠ none := by
    rw [hc.copy_idx 0 hthread]
    simp
  obtain ⟨j, hj⟩ := Option.ne_none_iff_exists'.mp (hb.idx_frame hidx)
  rw [h.slot_eq j hj] at hpixels
  unfold Env.letterboxMat at hpixels
  split at hpixels
  · exact absurd hpixels (by simp [Mat.pixels])
  · exact h.dstBuf_imported (Option.some.inj hpixels)
  · rename_i hrga
    obtain rfl : j = k := Pixels.frame.inj (Option.some.inj hpixels)
    rw [hrga]
    simp

theorem Served.mainStep (h : Served env s m) (hc : Control s) :
    Served env (mainStep env s) (m.next s .main) := by
  have hk := mainKeeps env s
  have hinputs : (m.next s .main).inputs = m.inputs := by
    cases hmain : s.main <;> simp only [Attempts.next, hmain]
  constructor
  · rw [hk.input_eq]
    exact h.input_imported
  · rw [hinputs]
    exact h.inputs_imported
  · rw [hk.rkndoOk_eq, hk.thread_eq, hk.inferences_eq]
    rintro (hr | hr | ⟨i, hr⟩)
    · exact h.raised (.inl hr)
    · exact h.raised (.inr (.inl hr))
    · obtain ⟨-, hdone⟩ := mainStep_getCopy hr
      rw [hc.slot_of_done hdone] at hdone
      exact h.raised (.inl hdone)
  · intro hmain
    rcases mainStep_fetched env s hmain with ⟨i, hcopy, -⟩ | ⟨⟨i, hclear⟩, -⟩
    · simp only [Attempts.next, hcopy]
      exact h.raised (.inr (.inr ⟨i, hcopy⟩))
    · simp only [Attempts.next, hclear]
      exact h.fetched (.inr ⟨i, hclear⟩)

theorem Served.threadStep (h : Served env s m) (hc : Control s) (hb : Book s) (hv : Views env s) :
    Served env (threadStep env s) (m.next s .thread) := by
  have hk := threadKeeps env s
  by_cases hinfer : ∃ i, s.thread = .infer i
  · obtain ⟨i, hthread⟩ := hinfer
    simp only [Pipeline.threadStep, Attempts.next, hthread]
    refine ⟨h.input_imported, ?_, fun _ => Nat.succ_ne_zero _, h.fetched⟩
    intro k hk
    rcases List.mem_append.mp hk with hold | hnew
    · exact h.inputs_imported k hold
    · exact h.input_imported k (List.mem_singleton.mp hnew).symm
  · have hpc : ∀ i, s.thread ≠ .infer i := fun i hi => hinfer ⟨i, hi⟩
    have hnext : m.next s .thread = m := by
      dsimp only [Attempts.next]
      split
      · rename_i i hthread
        exact absurd hthread (hpc i)
      · rfl
    rw [hnext]
    refine ⟨?_, h.inputs_imported, ?_, ?_⟩
    · cases hthread : s.thread with
      | copy i =>
          have hi : i = 0 := hc.thread_at hthread
          subst hi
          simp only [Pipeline.threadStep, hthread]
          split
          · rename_i p hp
            rintro k rfl
            exact hv.copied_imported hc hb hthread hp
          · exact h.input_imported
      | scan i | check =>
          simp only [Pipeline.threadStep, hthread]
          split <;> exact h.input_imported
      | infer i => exact absurd hthread (hpc i)
      | clearResize i | setDo i | crashed =>
          simp only [Pipeline.threadStep, hthread]
          exact h.input_imported
    · rw [(threadStep_outside env hpc).1, hk.main_eq]
      rintro (hr | hr | hr)
      · exact h.raised ((threadStep_raised env hpc (.inl hr)).imp id .inl)
      · exact h.raised ((threadStep_raised env hpc (.inr hr)).imp id .inl)
      · exact h.raised (.inr (.inr hr))
    · rw [hk.main_eq]
      exact h.fetched

theorem Served.harmless (h : Served env s m) (hzero : 0 ≤ env.rknnRun 0)
    (hlater : (∀ k, env.rga (k + 1) = .importFailed) ∨ ∀ n, 0 ≤ env.rknnRun n) (p : Proc) :
    FailureHarmless env (s, m) p := by
  have hnotEarlier : ∀ {n k source}, env.rknnRun n < 0 → env.rga k ≠ .importFailed →
      NotEarlier k source := by
    intro n k source hfail himport j hj
    rcases hlater with hnone | hall
    · cases k with
      | zero => exact absurd hj (Nat.not_lt_zero j)
      | succ k => exact absurd (hnone k) himport
    · exact absurd (hall n) (not_le.mpr hfail)
  constructor
  · rintro - hdraw
    refine ⟨⟨0, Nat.pos_of_ne_zero (h.fetched (.inl hdraw)), hzero⟩, ?_⟩
    rintro ⟨n, hn, hfail⟩
    exact hnotEarlier hfail (h.inputs_imported _ (List.mem_of_getElem? hn))
  · rintro - - hfail k n hinput -
    exact hnotEarlier hfail (h.input_imported k hinput)

end Served

/-- The first frame is not imported, so no round of `rknn_thread` gets past its copy. -/
structure Stuck (s : State) : Prop where
  never : s.rkndoOk 0 = false
  no_round : ∀ i, s.thread ≠ .infer i ∧ s.thread ≠ .clearResize i ∧ s.thread ≠ .setDo i

section Stuck

variable {env : Env} {s : State}

theorem Stuck.mainStep (h : Stuck s) : Stuck (mainStep env s) where
  never := by
    rw [(mainKeeps env s).rkndoOk_eq]
    exact h.never
  no_round := by
    rw [(mainKeeps env s).thread_eq]
    exact h.no_round

theorem Stuck.threadStep (h : Stuck s) (hc : Control s) (hb : Book s) (hv : Views env s)
    (hframe : s.frame = 0) (himport : env.rga 0 = .importFailed) : Stuck (threadStep env s) := by
  constructor
  · cases hthread : s.thread with
    | setDo i => exact absurd hthread (h.no_round i).2.2
    | scan i | check | copy i =>
        unfold Pipeline.threadStep
        simp only [hthread]
        split <;> exact h.never
    | infer i | clearResize i | crashed =>
        unfold Pipeline.threadStep
        simp only [hthread]
        exact h.never
  · cases hthread : s.thread with
    | copy i =>
        have hi : i = 0 := hc.thread_at hthread
        subst hi
        have hidx : s.idx ≠ none := by
          rw [hc.copy_idx 0 hthread]
          simp
        have hslot : (s.resizeImages 0).frame = some 0 := by
          have hslot := hb.slot_frame
          rw [hframe, if_pos rfl] at hslot
          split at hslot
          · exact hslot
          · exact absurd hslot (hb.idx_frame hidx)
        have himage := hv.slot_eq 0 hslot
        rw [letterboxMat_empty himport] at himage
        simp [Pipeline.threadStep, hthread, himage, Mat.pixels]
    | scan i =>
        unfold Pipeline.threadStep
        simp only [hthread]
        split
        · simp
        · intro j
          dsimp only
          split <;> simp
    | check =>
        unfold Pipeline.threadStep
        simp only [hthread]
        split <;> simp
    | infer i => exact absurd hthread (h.no_round i).1
    | clearResize i => exact absurd hthread (h.no_round i).2.1
    | setDo i => exact absurd hthread (h.no_round i).2.2
    | crashed =>
        unfold Pipeline.threadStep
        simp only [hthread]
        simp

theorem drawn_of_not_imported (himport : env.rga 0 = .importFailed) (schedule : List Proc) :
    (after env schedule).drawn = [] := by
  have hstuck : Stuck (after env schedule) := by
    induction schedule using List.reverseRecOn with
    | nil => exact ⟨rfl, by simp [after, run, State.init]⟩
    | append_singleton schedule p ih =>
        obtain ⟨⟨hc, hb⟩, hv⟩ := views_after env schedule
        have hframe := ((firstRound_after env schedule).unserved ih.never).1
        rw [after_append]
        cases p with
        | main => exact ih.mainStep
        | thread => exact ih.threadStep hc hb hv hframe himport
  have hframe := ((firstRound_after env schedule).unserved hstuck.never).1
  rw [← List.length_eq_zero_iff, (book_after env schedule).drawn_length, hframe]

end Stuck

theorem harmless_of_codes {env : Env} (hzero : 0 ≤ env.rknnRun 0)
    (hlater : (∀ k, env.rga (k + 1) = .importFailed) ∨ ∀ n, 0 ≤ env.rknnRun n)
    (schedule : List Proc) :
    Throughout (watch (step env) Attempts.next) (.init, .none)
      (fun w => NothingFromFailure env w.1 w.2) schedule := by
  have hinv : Throughout (watch (step env) Attempts.next) (.init, .none)
      (fun w => ((Control w.1 ∧ Book w.1) ∧ Views env w.1) ∧ Served env w.1 w.2) schedule := by
    intro start _
    apply run_invariant (I := fun w : State × Attempts =>
      ((Control w.1 ∧ Book w.1) ∧ Views env w.1) ∧ Served env w.1 w.2)
    · exact ⟨⟨⟨control_init, book_init⟩, views_init env⟩, served_init env⟩
    · rintro ⟨s, m⟩ p ⟨h, hserved⟩
      refine ⟨Views.step h p, ?_⟩
      cases p with
      | main => exact hserved.mainStep h.1.1
      | thread => exact hserved.threadStep h.1.1 h.1.2 h.2
  apply (throughout_nothingFromFailure env schedule).mpr
  intro start p hs
  exact (hinv start ((List.prefix_append _ _).trans hs)).2.harmless hzero hlater p

/-! ## In both modes -/

/-- **When a failed inference delivers nothing.**  With the queue, in every interleaving exactly
if the first frame is not imported, or the first call of `rknn_run` succeeds and either no later
frame is imported or no later call fails; without it, exactly if `rknn_run` fails for none of
the frames that were imported. -/
theorem nothingFromFailure_iff (env : Env) :
    ((∀ schedule, Throughout (watch (step env) Attempts.next) (.init, .none)
        (fun w => NothingFromFailure env w.1 w.2) schedule) ↔
      env.rga 0 = .importFailed ∨
        0 ≤ env.rknnRun 0 ∧
          ((∀ k, env.rga (k + 1) = .importFailed) ∨ ∀ n, 0 ≤ env.rknnRun (n + 1))) ∧
    ∀ uninitialised n,
      (∀ m ≤ n, ∀ s, syncRun env uninitialised m = some s → SyncNothingFromFailure env s) ↔
        ∀ k < n, (∀ j ≤ k, env.rga j ≠ .importFailed) → 0 ≤ env.rknnRun k := by
  refine ⟨?_, sync_nothingFromFailure env⟩
  constructor
  · intro h
    have hharmless : ∀ schedule,
        NothingFromFailure env (after env schedule) (attemptsAfter env schedule).2 := by
      intro schedule
      rw [← (attempted_after env schedule).1]
      exact h schedule schedule (List.prefix_refl _)
    by_cases himport : env.rga 0 = .importFailed
    · exact .inl himport
    · have hzero := first_code_of_harmless himport hharmless
      refine .inr ⟨hzero, ?_⟩
      by_cases hlater : ∀ k, env.rga (k + 1) = .importFailed
      · exact .inl hlater
      · obtain ⟨k, hk⟩ := not_forall.mp hlater
        exact .inr fun n => later_codes_of_harmless himport hzero hharmless hk
  · rintro (himport | ⟨hzero, hlater⟩) schedule
    · intro start _ k d hd
      rw [run_watch_fst] at hd
      change (after env start).drawn[k]? = some d at hd
      rw [drawn_of_not_imported himport start] at hd
      exact absurd hd (by simp)
    · apply harmless_of_codes hzero _ schedule
      refine hlater.imp id fun hall n => ?_
      cases n with
      | zero => exact hzero
      | succ n => exact hall n

def failingEnv : Env := { quietEnv with rknnRun := fun _ => -1 }

def drawAfterFailure : List Proc := steps .main 6 ++ steps .thread 6 ++ steps .main 4

/-- In both modes a list is drawn although `rknn_run` has failed. -/
theorem failed_run_drawn :
    ¬ (Throughout (watch (step failingEnv) Attempts.next) (.init, .none)
        (fun w => NothingFromFailure failingEnv w.1 w.2) drawAfterFailure) ∧
    ¬ ∀ s, syncRun failingEnv catInView 1 = some s → SyncNothingFromFailure failingEnv s := by
  constructor
  · intro h
    have hlist := h drawAfterFailure (List.prefix_refl _)
    have hdrawn : (run (watch (step failingEnv) Attempts.next) (.init, .none)
        drawAfterFailure).1.drawn = [⟨⟨.zero, none⟩, [], []⟩] := by rfl
    exact (hlist 0 _ (by rw [hdrawn]; rfl)).1 rfl
  · intro h
    obtain ⟨s, hs, htrace⟩ := syncRun_trace failingEnv catInView 1 (by decide)
    have hlength := congrArg List.length htrace.drawn_source
    simp only [List.length_map, List.length_range] at hlength
    have hd := List.getElem?_eq_getElem (hlength ▸ Nat.zero_lt_one)
    exact (h s hs 0 _ hd).1 (htrace.source hd).2

end CatDect.Pipeline
