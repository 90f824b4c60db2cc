import CatDect.Pipeline.Invariant

/-!
# The queue of images

Two promises about a frame that `rkn_queue_add` has accepted: it stays queued until
`rknn_thread` has copied it, and what is copied are its own pixels.  Neither `rkn_result_get`
nor `rknn_thread` checks what it would have to check for that, so both hold under a
condition on the schedule, stated here step by step.
-/

namespace CatDect.Pipeline

open CatDect.Support

/-! ## Queued frames -/

namespace State

def Copied (s : State) (k : ℕ) : Prop := ∃ t ∈ s.taken, t.frame = some k

/-- The frame was accepted in slot `i` and has not been copied yet. -/
def Queued (s : State) (k : ℕ) (i : Fin 2) : Prop := (k, i) ∈ s.accepted ∧ ¬ s.Copied k

def LastCopied (s : State) : Prop := ∀ a, s.accepted.getLast? = some a → s.Copied a.1

end State

section Queued

variable {env : Env} {s s' : State} {k : ℕ} {i : Fin 2}

theorem Book.accepted_mem (h : Book s) (ha : (k, i) ∈ s.accepted) :
    i = 0 ∧ k ≤ s.frame ∧ (s.main.accepted = false → k < s.frame) := by
  rw [h.accepted_eq, List.mem_map] at ha
  obtain ⟨l, hl, heq⟩ := ha
  obtain ⟨rfl, rfl⟩ := Prod.mk.inj heq
  have hlt := List.mem_range.mp hl
  split at hlt
  · rename_i hacc
    exact ⟨rfl, by omega, fun hnot => absurd (hacc.symm.trans hnot) (by simp)⟩
  · exact ⟨rfl, by omega, fun _ => hlt⟩

theorem Book.last_of_accepted (h : Book s) (hacc : s.main.accepted = true) :
    s.accepted.getLast? = some (s.frame, 0) := by
  rw [h.accepted_eq, if_pos hacc, List.range_succ, List.map_append, List.map_singleton,
    List.getLast?_append]
  rfl

theorem Book.last_of_not_accepted (h : Book s) (hacc : s.main.accepted = false)
    (hframe : s.frame ≠ 0) : s.accepted.getLast? = some (s.frame - 1, 0) := by
  obtain ⟨n, hn⟩ := Nat.exists_eq_succ_of_ne_zero hframe
  rw [h.accepted_eq, hacc, hn, if_neg (by simp), List.range_succ, List.map_append,
    List.map_singleton, List.getLast?_append]
  rfl

theorem State.Queued.of_same (h : s'.Queued k i) (haccepted : s'.accepted = s.accepted)
    (htaken : s'.taken = s.taken) : s.Queued k i := by
  unfold State.Queued State.Copied at h ⊢
  rw [haccepted, htaken] at h
  exact h

theorem State.lastCopied_of_not_queued (h : ∀ k i, ¬ s.Queued k i) : s.LastCopied := by
  intro a ha
  by_contra hnot
  exact h a.1 a.2 ⟨List.mem_of_getLast? ha, hnot⟩

end Queued

/-! ## No accepted frame is lost -/

/-- A queued frame is in its slot, and `resize_ok` says so. -/
def NoFrameLost (s : State) : Prop :=
  ∀ k i, s.Queued k i → s.resizeOk i = true ∧ (s.resizeImages i).frame = some k

/-- The step stores 0 in a cell of `resize_ok`: the end of `rkn_result_get`, or of a round
of `rknn_thread`. -/
def ClearsResizeOk (s : State) : Proc → Prop
  | .main => ∃ i, s.main = .getClear i
  | .thread => ∃ i, s.thread = .clearResize i

section NoFrameLost

variable {env : Env} {s s' : State}

theorem NoFrameLost.of_same (h : NoFrameLost s) (haccepted : s'.accepted = s.accepted)
    (htaken : s'.taken = s.taken) (hok : s'.resizeOk = s.resizeOk)
    (himages : s'.resizeImages = s.resizeImages) : NoFrameLost s' := by
  intro k i hq
  rw [hok, himages]
  exact h k i (hq.of_same haccepted htaken)

theorem NoFrameLost.queued_last (h : NoFrameLost s) (hc : Control s) (hb : Book s) {k : ℕ}
    {i : Fin 2} (hq : s.Queued k i) : i = 0 ∧ s.accepted.getLast? = some (k, 0) := by
  obtain ⟨rfl, -, -⟩ := hb.accepted_mem hq.1
  obtain ⟨hset, hslot⟩ := h k 0 hq
  have hwait := hc.resizeOk_zero hset
  have hphase : s.main.stored = true ∧ s.main.accepted = true := by
    revert hwait
    cases s.main <;> simp [MainPc.waiting, MainPc.stored, MainPc.accepted]
  rw [hb.slot_frame, if_pos hphase.1, Option.some_inj] at hslot
  rw [← hslot]
  exact ⟨rfl, hb.last_of_accepted hphase.2⟩

theorem NoFrameLost.clear_iff (h : NoFrameLost s) (s' : State) (hc : Control s) (hb : Book s)
    (haccepted : s'.accepted = s.accepted) (htaken : s'.taken = s.taken)
    (hok : s'.resizeOk 0 = false) : NoFrameLost s' ↔ s.LastCopied := by
  constructor
  · intro h'
    apply State.lastCopied_of_not_queued
    intro k i hq
    obtain ⟨rfl, -⟩ := h.queued_last hc hb hq
    have hset := (h' k 0 (hq.of_same haccepted.symm htaken.symm)).1
    exact absurd (hok.symm.trans hset) (by simp)
  · intro hlast k i hq
    have hq := hq.of_same haccepted htaken
    exact absurd (hlast _ (h.queued_last hc hb hq).2) hq.2

theorem NoFrameLost.mainStep_iff (h : NoFrameLost s) (hc : Control s) (hb : Book s) :
    NoFrameLost (mainStep env s) ↔ (ClearsResizeOk s .main → s.LastCopied) := by
  have hkeep : ∀ {s' : State}, (∀ i, s.main ≠ .getClear i) → NoFrameLost s' →
      (NoFrameLost s' ↔ (ClearsResizeOk s .main → s.LastCopied)) := fun hne h' =>
    ⟨fun _ hclear => absurd hclear.choose_spec (hne _), fun _ => h'⟩
  cases hpc : s.main with
  | getClear i =>
      have hi : i = 0 := hc.main_at hpc
      subst hi
      rw [h.clear_iff (Pipeline.mainStep env s) hc hb]
      · exact ⟨fun hlast _ => hlast, fun himp => himp ⟨0, hpc⟩⟩
      · unfold Pipeline.mainStep
        simp only [hpc]
      · unfold Pipeline.mainStep
        simp only [hpc]
      · simp only [Pipeline.mainStep, hpc, Function.update_self]
  | addStore i =>
      -- the slot is free, so nothing is queued whose image could be replaced
      have hi : i = 0 := hc.main_at hpc
      subst hi
      have hfree := hc.slot_free (by rw [hpc]; rfl)
      apply hkeep (by simp [hpc])
      intro k i hq
      simp only [Pipeline.mainStep, hpc] at hq
      have hq : s.Queued k i := hq
      obtain ⟨rfl, -, -⟩ := hb.accepted_mem hq.1
      exact absurd (hfree.symm.trans (h k 0 hq).1) (by simp)
  | addSet i =>
      have hi : i = 0 := hc.main_at hpc
      subst hi
      have hfree := hc.slot_free (by rw [hpc]; rfl)
      have hslot := hb.slot_frame
      rw [hpc] at hslot
      apply hkeep (by simp [hpc])
      intro k i hq
      simp only [Pipeline.mainStep, hpc] at hq ⊢
      obtain ⟨hmem, hnot⟩ := hq
      rcases List.mem_append.mp hmem with hold | hnew
      · have hq : s.Queued k i := ⟨hold, hnot⟩
        obtain ⟨rfl, -, -⟩ := hb.accepted_mem hold
        exact absurd (hfree.symm.trans (h k 0 hq).1) (by simp)
      · obtain ⟨rfl, rfl⟩ := Prod.mk.inj (List.mem_singleton.mp hnew)
        exact ⟨Function.update_self .., hslot⟩
  | poll | resize | draw | addRead i | getRead i =>
      apply hkeep (by simp [hpc])
      unfold Pipeline.mainStep
      simp only [hpc]
      split <;> exact h.of_same rfl rfl rfl rfl
  | clear | getCopy i | aborted =>
      apply hkeep (by simp [hpc])
      unfold Pipeline.mainStep
      simp only [hpc]
      exact h.of_same rfl rfl rfl rfl

theorem NoFrameLost.threadStep_iff (h : NoFrameLost s) (hc : Control s) (hb : Book s) :
    NoFrameLost (threadStep env s) ↔ (ClearsResizeOk s .thread → s.LastCopied) := by
  have hkeep : ∀ {s' : State}, (∀ i, s.thread ≠ .clearResize i) → NoFrameLost s' →
      (NoFrameLost s' ↔ (ClearsResizeOk s .thread → s.LastCopied)) := fun hne h' =>
    ⟨fun _ hclear => absurd hclear.choose_spec (hne _), fun _ => h'⟩
  cases hpc : s.thread with
  | clearResize i =>
      have hi : i = 0 := hc.thread_at hpc
      subst hi
      rw [h.clear_iff (Pipeline.threadStep env s) hc hb]
      · exact ⟨fun hlast _ => hlast, fun himp => himp ⟨0, hpc⟩⟩
      · unfold Pipeline.threadStep
        simp only [hpc]
      · unfold Pipeline.threadStep
        simp only [hpc]
      · simp only [Pipeline.threadStep, hpc, Function.update_self]
  | copy i =>
      apply hkeep (by simp [hpc])
      unfold Pipeline.threadStep
      simp only [hpc]
      split
      · intro k j hq
        obtain ⟨hmem, hnot⟩ := hq
        have hnot' : ¬ s.Copied k := by
          rintro ⟨t, ht, hk⟩
          exact hnot ⟨t, List.mem_append_left _ ht, hk⟩
        exact h k j ⟨hmem, hnot'⟩
      · exact h.of_same rfl rfl rfl rfl
  | scan i | check =>
      apply hkeep (by simp [hpc])
      unfold Pipeline.threadStep
      simp only [hpc]
      split <;> exact h.of_same rfl rfl rfl rfl
  | infer i | setDo i | crashed =>
      apply hkeep (by simp [hpc])
      unfold Pipeline.threadStep
      simp only [hpc]
      exact h.of_same rfl rfl rfl rfl

end NoFrameLost

theorem noFrameLost_init : NoFrameLost .init := fun _ _ hq => absurd hq.1 List.not_mem_nil

/-- **When no accepted frame is lost.**  Throughout a run every queued frame stays in its
slot with `resize_ok` set, exactly if no step of the run clears `resize_ok` before the
frame accepted last has been copied. -/
theorem noFrameLost_iff (env : Env) (schedule : List Proc) :
    Throughout (step env) .init NoFrameLost schedule ↔
      Along (step env) .init (fun s p => ClearsResizeOk s p → s.LastCopied) schedule := by
  apply throughout_iff_along (I := fun s => Control s ∧ Book s) ⟨control_init, book_init⟩
    (fun _ p h => ⟨h.1.step p, h.2.step h.1 p⟩) noFrameLost_init _ schedule
  rintro s (_ | _) ⟨hc, hb⟩ h
  · exact h.mainStep_iff hc hb
  · exact h.threadStep_iff hc hb

/-! ## A schedule that loses a frame -/

def quietEnv : Env where
  rga := fun _ => .resized
  rknnRun := fun _ => 0
  postProcess := fun _ => .zero
  readings := fun _ _ => ⟨0, 0, 1⟩

def steps (p : Proc) (n : ℕ) : List Proc := List.replicate n p

/-- `main` queues a frame, `rknn_thread` does its round, and `main` draws, queues the next
frame and fetches a result again before `rknn_thread` runs. -/
def secondFetchEarly : List Proc := steps .main 6 ++ steps .thread 6 ++ steps .main 13

theorem second_frame_lost :
    ¬ Throughout (step quietEnv) .init NoFrameLost secondFetchEarly := by
  intro h
  have hlost := h secondFetchEarly (List.prefix_refl _) 1 0
  have htaken : (run (step quietEnv) .init secondFetchEarly).taken = [⟨some 0, .frame 0⟩] := by rfl
  have haccepted : (run (step quietEnv) .init secondFetchEarly).accepted = [(0, 0), (1, 0)] := by
    rfl
  have hcleared : (run (step quietEnv) .init secondFetchEarly).resizeOk 0 = false := by rfl
  have hqueued : (run (step quietEnv) .init secondFetchEarly).Queued 1 0 := by
    rw [State.Queued, State.Copied, htaken, haccepted]
    simp
  exact absurd (hcleared.symm.trans (hlost hqueued).1) (by simp)

/-! ## What is copied is what was accepted -/

/-- Every copy read the pixels `letterbox` made for the frame in the slot, and `dst_buf`
holds the pixels of a queued frame, if `letterbox` returned a view of it, until they are
copied. -/
structure ImagesIntact (env : Env) (s : State) : Prop where
  taken_eq : ∀ t ∈ s.taken, ∃ k, t.frame = some k ∧ t.pixels = .frame k
  dstBuf_eq : ∀ k i, s.Queued k i → env.rga k = .resized → s.dstBuf = .frame k

/-- `dst_buf` no longer holds the image in the slot: `letterbox` has cleared it for the next
frame, which has not been stored yet. -/
def MainPc.rebuilding : MainPc → Bool
  | resize | addRead _ | addStore _ => true
  | _ => false

/-- `letterbox` clears `dst_buf` only once the frame accepted last, if its image is a view of
it, has been copied, and `rknn_thread` copies from no view from the moment of the clearing
until the next image is stored. -/
def BufferRespected (env : Env) (s : State) : Proc → Prop
  | .main => s.main = .clear →
      ∀ a, s.accepted.getLast? = some a → env.rga a.1 = .resized → s.Copied a.1
  | .thread => ∀ i, s.thread = .copy i → (s.resizeImages i).image = .view →
      s.main.rebuilding = false

namespace Env

def letterboxMat (env : Env) (k : ℕ) : Mat :=
  match env.rga k with
  | .importFailed => .empty
  | .resized => .view
  | .resizeFailed => .own (.frame k)

def letterboxDst (env : Env) (k : ℕ) : Pixels :=
  if env.rga k = .resized then .frame k else .blank

def dstBufAt (env : Env) (k : ℕ) : MainPc → Pixels
  | .poll | .clear => if k = 0 then .blank else env.letterboxDst (k - 1)
  | .resize => .blank
  | _ => env.letterboxDst k

theorem letterboxDst_of_resized {env : Env} {k : ℕ} (h : env.rga k = .resized) :
    env.letterboxDst k = .frame k := if_pos h

theorem letterboxDst_eq_frame {env : Env} {k l : ℕ} (h : env.letterboxDst k = .frame l) :
    k = l := by
  unfold letterboxDst at h
  split at h
  · exact Pixels.frame.inj h
  · exact absurd h (by simp)

theorem resized_of_view {env : Env} {k : ℕ} (h : env.letterboxMat k = .view) :
    env.rga k = .resized := by
  unfold letterboxMat at h
  split at h
  · exact absurd h (by simp)
  · assumption
  · exact absurd h (by simp)

end Env

structure Views (env : Env) (s : State) : Prop where
  letterbox_eq : ∀ i, s.main = .addRead i ∨ s.main = .addStore i →
    s.letterboxImage = env.letterboxMat s.frame
  slot_eq : ∀ k, (s.resizeImages 0).frame = some k →
    (s.resizeImages 0).image = env.letterboxMat k
  dstBuf_eq : s.dstBuf = env.dstBufAt s.frame s.main

theorem views_init (env : Env) : Views env .init where
  letterbox_eq := fun _ h => absurd h (by simp [State.init])
  slot_eq := fun _ h => absurd h (by simp [State.init])
  dstBuf_eq := rfl

section ImagesIntact

variable {env : Env} {s s' : State}

theorem Views.mainStep (h : Views env s) (hc : Control s) : Views env (mainStep env s) := by
  obtain ⟨hletter, hslot, hdst⟩ := h
  cases hpc : s.main with
  | poll =>
      obtain ⟨g, hstep, -⟩ := hc.toMainSide.poll env hpc
      rw [hpc] at hdst
      rw [hstep]
      exact ⟨fun _ h => absurd h (by simp), hslot, hdst⟩
  | clear =>
      unfold Pipeline.mainStep
      simp only [hpc]
      exact ⟨fun _ h => absurd h (by simp), hslot, rfl⟩
  | resize =>
      rw [hpc] at hdst
      unfold Pipeline.mainStep
      simp only [hpc]
      split
      · rename_i hrga
        have hkept : env.letterboxDst s.frame = .blank := if_neg (by simp [hrga])
        exact ⟨fun _ _ => by simp [Env.letterboxMat, hrga], hslot, hdst.trans hkept.symm⟩
      · rename_i hrga
        exact ⟨fun _ _ => by simp [Env.letterboxMat, hrga], hslot,
          (Env.letterboxDst_of_resized hrga).symm⟩
      · rename_i hrga
        have hkept : env.letterboxDst s.frame = .blank := if_neg (by simp [hrga])
        exact ⟨fun _ _ => by simp [Env.letterboxMat, hrga], hslot, hdst.trans hkept.symm⟩
  | addRead i =>
      have himage := hletter i (.inl hpc)
      rw [hpc] at hdst
      unfold Pipeline.mainStep
      simp only [hpc]
      split <;> exact ⟨fun _ _ => himage, hslot, hdst⟩
  | addStore i =>
      have himage := hletter i (.inr hpc)
      rw [hpc] at hdst
      have hi : i = 0 := hc.main_at hpc
      subst hi
      unfold Pipeline.mainStep
      simp only [hpc]
      refine ⟨fun _ h => absurd h (by simp), ?_, hdst⟩
      intro k hk
      simp only [Function.update_self] at hk ⊢
      rw [himage, Option.some.inj hk]
  | draw =>
      obtain ⟨st, -, -, hstep⟩ := hc.toMainSide.draw env hpc
      rw [hpc] at hdst
      rw [hstep]
      exact ⟨fun _ h => absurd h (by simp), hslot, hdst⟩
  | getRead i =>
      rw [hpc] at hdst
      unfold Pipeline.mainStep
      simp only [hpc]
      split <;> exact ⟨fun _ h => absurd h (by simp), hslot, hdst⟩
  | addSet i | getCopy i | getClear i =>
      rw [hpc] at hdst
      unfold Pipeline.mainStep
      simp only [hpc]
      exact ⟨fun _ h => absurd h (by simp), hslot, hdst⟩
  | aborted =>
      exact (hc.main_at hpc).elim

theorem Views.keep (h : Views env s) (hk : ThreadKeeps s s') : Views env s' := by
  constructor
  · rw [hk.main_eq, hk.letterboxImage_eq, hk.frame_eq]
    exact h.letterbox_eq
  · rw [hk.resizeImages_eq]
    exact h.slot_eq
  · rw [hk.main_eq, hk.dstBuf_eq, hk.frame_eq]
    exact h.dstBuf_eq

theorem Views.step (h : (Control s ∧ Book s) ∧ Views env s) (p : Proc) :
    (Control (step env s p) ∧ Book (step env s p)) ∧ Views env (step env s p) := by
  obtain ⟨⟨hc, hb⟩, hv⟩ := h
  refine ⟨⟨hc.step p, hb.step hc p⟩, ?_⟩
  cases p with
  | main => exact hv.mainStep hc
  | thread => exact hv.keep (threadKeeps env s)

theorem ImagesIntact.of_same (h : ImagesIntact env s) (haccepted : s'.accepted = s.accepted)
    (htaken : s'.taken = s.taken) (hdst : s'.dstBuf = s.dstBuf) : ImagesIntact env s' := by
  constructor
  · rw [htaken]
    exact h.taken_eq
  · intro k i hq hrga
    rw [hdst]
    exact h.dstBuf_eq k i (hq.of_same haccepted htaken) hrga

theorem ImagesIntact.queued_last (h : ImagesIntact env s) (hb : Book s) (hv : Views env s)
    (hpc : s.main = .clear) {k : ℕ} {i : Fin 2} (hq : s.Queued k i) (hrga : env.rga k = .resized) :
    s.accepted.getLast? = some (k, 0) := by
  have hacc : s.main.accepted = false := by
    rw [hpc]
    rfl
  obtain ⟨-, -, hlt⟩ := hb.accepted_mem hq.1
  have hpos : s.frame ≠ 0 := by
    have := hlt hacc
    omega
  have hdst : env.letterboxDst (s.frame - 1) = .frame k := by
    calc env.letterboxDst (s.frame - 1) = env.dstBufAt s.frame s.main := by
          rw [hpc]
          exact (if_neg hpos).symm
      _ = s.dstBuf := hv.dstBuf_eq.symm
      _ = .frame k := h.dstBuf_eq k i hq hrga
  rw [← Env.letterboxDst_eq_frame hdst]
  exact hb.last_of_not_accepted hacc hpos

theorem ImagesIntact.mainStep_iff (h : ImagesIntact env s) (hb : Book s) (hv : Views env s) :
    ImagesIntact env (mainStep env s) ↔ BufferRespected env s .main := by
  have hkeep : ∀ {s' : State}, s.main ≠ .clear → ImagesIntact env s' →
      (ImagesIntact env s' ↔ BufferRespected env s .main) := fun hne h' =>
    ⟨fun _ hclear => absurd hclear hne, fun _ => h'⟩
  have hdst := hv.dstBuf_eq
  cases hpc : s.main with
  | clear =>
      simp only [Pipeline.mainStep, hpc, BufferRespected, forall_const]
      constructor
      · intro h' a ha hrga
        by_contra hnot
        have hq : s.Queued a.1 a.2 := ⟨List.mem_of_getLast? ha, hnot⟩
        exact absurd (h'.dstBuf_eq a.1 a.2 hq hrga) (by simp)
      · intro hlast
        refine ⟨h.taken_eq, ?_⟩
        intro k i hq hrga
        have hq : s.Queued k i := hq
        exact absurd (hlast _ (h.queued_last hb hv hpc hq hrga) hrga) hq.2
  | resize =>
      -- the buffer is blank, so no queued image is a view of it
      rw [hpc] at hdst
      have hnone : ∀ k i, s.Queued k i → env.rga k ≠ .resized := by
        intro k i hq hrga
        exact absurd ((h.dstBuf_eq k i hq hrga).symm.trans hdst) (by simp [Env.dstBufAt])
      apply hkeep (by simp [hpc])
      unfold Pipeline.mainStep
      simp only [hpc]
      split
      · exact h.of_same rfl rfl rfl
      · exact ⟨h.taken_eq, fun k i hq hrga => absurd hrga (hnone k i hq)⟩
      · exact h.of_same rfl rfl rfl
  | addSet i =>
      rw [hpc] at hdst
      apply hkeep (by simp [hpc])
      unfold Pipeline.mainStep
      simp only [hpc]
      refine ⟨h.taken_eq, ?_⟩
      intro k j hq hrga
      rcases hq with ⟨hmem, hnot⟩
      rcases List.mem_append.mp hmem with hold | hnew
      · exact h.dstBuf_eq k j ⟨hold, hnot⟩ hrga
      · have hk : k = s.frame := (Prod.mk.inj (List.mem_singleton.mp hnew)).1
        subst hk
        exact hdst.trans (Env.letterboxDst_of_resized hrga)
  | poll | draw | addRead i | getRead i =>
      apply hkeep (by simp [hpc])
      unfold Pipeline.mainStep
      simp only [hpc]
      split <;> exact h.of_same rfl rfl rfl
  | addStore i | getCopy i | getClear i | aborted =>
      apply hkeep (by simp [hpc])
      unfold Pipeline.mainStep
      simp only [hpc]
      exact h.of_same rfl rfl rfl

theorem Views.copy_iff (hv : Views env s) (hc : Control s) (hb : Book s) {k : ℕ}
    (hslot : (s.resizeImages 0).frame = some k) (hrga : env.rga k = .resized) :
    s.dstBuf = .frame k ↔ s.main.rebuilding = false := by
  have hframe := hb.slot_frame
  rw [hslot] at hframe
  rw [hv.dstBuf_eq]
  cases hpc : s.main with
  | poll | clear =>
      rw [hpc] at hframe
      simp only [MainPc.stored, Bool.false_eq_true, if_false] at hframe
      have hpos : s.frame ≠ 0 := by
        intro hzero
        rw [if_pos hzero] at hframe
        exact absurd hframe (by simp)
      rw [if_neg hpos] at hframe
      have hk : k = s.frame - 1 := Option.some.inj hframe
      subst hk
      simp [Env.dstBufAt, hpos, Env.letterboxDst_of_resized hrga, MainPc.rebuilding]
  | resize => simp [Env.dstBufAt, MainPc.rebuilding]
  | addRead i | addStore i =>
      rw [hpc] at hframe
      simp only [MainPc.stored, Bool.false_eq_true, if_false] at hframe
      have hne : s.frame ≠ k := by
        intro heq
        split at hframe
        · exact absurd hframe (by simp)
        · have := Option.some.inj hframe
          omega
      have hother : env.letterboxDst s.frame ≠ .frame k := fun heq =>
        hne (Env.letterboxDst_eq_frame heq)
      simp [Env.dstBufAt, hother, MainPc.rebuilding]
  | addSet i | getRead i | getCopy i | getClear i | draw =>
      rw [hpc] at hframe
      simp only [MainPc.stored, if_true, Option.some_inj] at hframe
      subst hframe
      simp [Env.dstBufAt, Env.letterboxDst_of_resized hrga, MainPc.rebuilding]
  | aborted =>
      exact (hc.main_at hpc).elim

theorem ImagesIntact.copy (h : ImagesIntact env s) {k : ℕ} {p : Pixels}
    (haccepted : s'.accepted = s.accepted) (htaken : s'.taken = s.taken ++ [⟨some k, p⟩])
    (hdst : s'.dstBuf = s.dstBuf) : ImagesIntact env s' ↔ p = .frame k := by
  constructor
  · intro h'
    obtain ⟨l, hl, hpixels⟩ := h'.taken_eq ⟨some k, p⟩ (by simp [htaken])
    rw [Option.some.inj hl]
    exact hpixels
  · intro hp
    constructor
    · intro t ht
      rw [htaken] at ht
      rcases List.mem_append.mp ht with hold | hnew
      · exact h.taken_eq t hold
      · rw [List.mem_singleton.mp hnew]
        exact ⟨k, rfl, hp⟩
    · intro l j hq hrga
      rw [hdst]
      apply h.dstBuf_eq l j _ hrga
      rcases hq with ⟨hmem, hnot⟩
      rw [haccepted] at hmem
      refine ⟨hmem, ?_⟩
      rintro ⟨t, ht, hl⟩
      exact hnot ⟨t, by simp [htaken, ht], hl⟩

theorem ImagesIntact.threadStep_iff (h : ImagesIntact env s) (hc : Control s) (hb : Book s)
    (hv : Views env s) :
    ImagesIntact env (threadStep env s) ↔ BufferRespected env s .thread := by
  have hkeep : ∀ {s' : State}, (∀ i, s.thread ≠ .copy i) → ImagesIntact env s' →
      (ImagesIntact env s' ↔ BufferRespected env s .thread) := fun hne h' =>
    ⟨fun _ i hcopy => absurd hcopy (hne i), fun _ => h'⟩
  cases hpc : s.thread with
  | copy i =>
      have hi : i = 0 := hc.thread_at hpc
      subst hi
      have hidx : s.idx ≠ none := by
        rw [hc.copy_idx 0 hpc]
        simp
      obtain ⟨k, hk⟩ := Option.ne_none_iff_exists'.mp (hb.idx_frame hidx)
      have hslot := hv.slot_eq k hk
      have hcond : BufferRespected env s .thread ↔
          ((s.resizeImages 0).image = .view → s.main.rebuilding = false) := by
        constructor
        · intro hresp
          exact hresp 0 hpc
        · intro hview i hcopy
          rw [hpc] at hcopy
          rw [← ThreadPc.copy.inj hcopy]
          exact hview
      rw [hcond]
      cases himage : (s.resizeImages 0).image with
      | empty =>
          simp only [Pipeline.threadStep, hpc, himage, Mat.pixels]
          exact ⟨fun _ hview => absurd hview (by simp), fun _ => h.of_same rfl rfl rfl⟩
      | view =>
          have hrga : env.rga k = .resized := Env.resized_of_view (hslot.symm.trans himage)
          rw [← hv.copy_iff hc hb hk hrga, eq_self, true_imp_iff]
          apply h.copy
          · simp only [Pipeline.threadStep, hpc, himage, Mat.pixels]
          · simp only [Pipeline.threadStep, hpc, himage, Mat.pixels, hk]
          · simp only [Pipeline.threadStep, hpc, himage, Mat.pixels]
      | own p =>
          have hown : p = .frame k := by
            rw [himage] at hslot
            unfold Env.letterboxMat at hslot
            split at hslot
            · exact absurd hslot (by simp)
            · exact absurd hslot (by simp)
            · exact Mat.own.inj hslot
          simp only [reduceCtorEq, false_imp_iff, iff_true]
          apply (h.copy (k := k) (p := p) _ _ _).mpr hown
          · simp only [Pipeline.threadStep, hpc, himage, Mat.pixels]
          · simp only [Pipeline.threadStep, hpc, himage, Mat.pixels, hk]
          · simp only [Pipeline.threadStep, hpc, himage, Mat.pixels]
  | scan i | check =>
      apply hkeep (by simp [hpc])
      unfold Pipeline.threadStep
      simp only [hpc]
      split <;> exact h.of_same rfl rfl rfl
  | infer i | clearResize i | setDo i | crashed =>
      apply hkeep (by simp [hpc])
      unfold Pipeline.threadStep
      simp only [hpc]
      exact h.of_same rfl rfl rfl

end ImagesIntact

theorem imagesIntact_init (env : Env) : ImagesIntact env .init where
  taken_eq := fun _ ht => absurd ht List.not_mem_nil
  dstBuf_eq := fun _ _ hq => absurd hq.1 List.not_mem_nil

/-- **When queued images stay intact.**  Throughout a run every copy reads the pixels of the
frame in the slot and `dst_buf` keeps the pixels of a queued view, exactly if every step of
the run respects the buffer. -/
theorem imagesIntact_iff (env : Env) (schedule : List Proc) :
    Throughout (step env) .init (ImagesIntact env) schedule ↔
      Along (step env) .init (BufferRespected env) schedule := by
  apply throughout_iff_along (I := fun s => (Control s ∧ Book s) ∧ Views env s)
    ⟨⟨control_init, book_init⟩, views_init env⟩ (fun _ p h => Views.step h p)
    (imagesIntact_init env) _ schedule
  rintro s (_ | _) ⟨⟨hc, hb⟩, hv⟩ h
  · exact h.mainStep_iff hb hv
  · exact h.threadStep_iff hc hb hv

def thirdFrameEarly : List Proc := secondFetchEarly ++ steps .main 3

theorem queued_image_cleared :
    ¬ Throughout (step quietEnv) .init (ImagesIntact quietEnv) thirdFrameEarly := by
  intro h
  have hintact := h thirdFrameEarly (List.prefix_refl _)
  have htaken : (run (step quietEnv) .init thirdFrameEarly).taken = [⟨some 0, .frame 0⟩] := by rfl
  have haccepted : (run (step quietEnv) .init thirdFrameEarly).accepted = [(0, 0), (1, 0)] := by
    rfl
  have hblank : (run (step quietEnv) .init thirdFrameEarly).dstBuf = .blank := by rfl
  have hqueued : (run (step quietEnv) .init thirdFrameEarly).Queued 1 0 := by
    rw [State.Queued, State.Copied, htaken, haccepted]
    simp
  exact absurd (hblank.symm.trans (hintact.dstBuf_eq 1 0 hqueued rfl)) (by simp)

end CatDect.Pipeline
