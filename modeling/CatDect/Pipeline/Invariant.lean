import CatDect.Pipeline.Machine

/-!
# What holds in every interleaving

The second slot is never used: `rkn_result_get` clears `resize_ok[0]` before every
`rkn_queue_add`.  `control_after`, `book_after` and `sourced_after` collect what follows
for the program counters and flags, for the history and for the images, whatever the
environment does.
-/

namespace CatDect.Pipeline

open CatDect.Support CatDect.Postprocess CatDect.ImageHandle

/-! ## What a process leaves alone -/

structure MainKeeps (s s' : State) : Prop where
  thread_eq : s'.thread = s.thread
  idx_eq : s'.idx = s.idx
  input_eq : s'.input = s.input
  inferences_eq : s'.inferences = s.inferences
  rkndoOk_eq : s'.rkndoOk = s.rkndoOk
  odResults_eq : s'.odResults = s.odResults
  taken_eq : s'.taken = s.taken

structure ThreadKeeps (s s' : State) : Prop where
  main_eq : s'.main = s.main
  letterboxImage_eq : s'.letterboxImage = s.letterboxImage
  runResult_eq : s'.runResult = s.runResult
  globals_eq : s'.globals = s.globals
  frame_eq : s'.frame = s.frame
  resizeImages_eq : s'.resizeImages = s.resizeImages
  dstBuf_eq : s'.dstBuf = s.dstBuf
  offsets_eq : s'.offsets = s.offsets
  accepted_eq : s'.accepted = s.accepted
  drawn_eq : s'.drawn = s.drawn

theorem mainKeeps (env : Env) (s : State) : MainKeeps s (mainStep env s) := by
  unfold mainStep
  split <;> (try split) <;> exact ⟨rfl, rfl, rfl, rfl, rfl, rfl, rfl⟩

theorem threadKeeps (env : Env) (s : State) : ThreadKeeps s (threadStep env s) := by
  unfold threadStep
  split <;> (try split) <;> exact ⟨rfl, rfl, rfl, rfl, rfl, rfl, rfl, rfl, rfl, rfl⟩

theorem mainStep_drawn {env : Env} {s : State} (hpc : s.main ≠ .draw) :
    (mainStep env s).drawn = s.drawn := by
  cases hmain : s.main with
  | draw => exact absurd hmain hpc
  | poll | resize =>
      unfold mainStep
      simp only [hmain]
      split <;> rfl
  | clear | addRead i | addStore i | addSet i | getRead i | getCopy i | getClear i | aborted =>
      unfold mainStep
      simp only [hmain]

/-! ## Control flow and flags -/

structure MainSide (s : State) : Prop where
  main_reached : s.main.Reached
  configured : Configured s.globals
  cropped : s.main ≠ .poll → Cropped s.globals

structure ThreadSide (s : State) : Prop where
  thread_reached : s.thread.Reached
  idx_zero : ∀ i, s.idx = some i → i = 0
  copy_idx : ∀ i, s.thread = .copy i → s.idx = some i
  rkndoOk_one : s.rkndoOk 1 = false

/-- `resize_ok` is set only while `main` waits for a result, and only for the first slot. -/
structure Control (s : State) : Prop extends MainSide s, ThreadSide s where
  resizeOk_one : s.resizeOk 1 = false
  resizeOk_zero : s.resizeOk 0 = true → s.main.waiting = true

theorem control_init : Control .init where
  main_reached := trivial
  configured := configured_init
  cropped := fun h => absurd rfl h
  thread_reached := trivial
  idx_zero := by simp [State.init]
  copy_idx := by simp [State.init]
  rkndoOk_one := rfl
  resizeOk_one := rfl
  resizeOk_zero := by simp [State.init]

theorem MainSide.keep {s s' : State} (h : MainSide s) (hk : ThreadKeeps s s') : MainSide s' := by
  obtain ⟨h1, h2, h3⟩ := h
  rw [← hk.main_eq] at h1 h3
  rw [← hk.globals_eq] at h2 h3
  exact ⟨h1, h2, h3⟩

theorem ThreadSide.keep {s s' : State} (h : ThreadSide s) (hk : MainKeeps s s') :
    ThreadSide s' := by
  obtain ⟨h1, h2, h3, h4⟩ := h
  rw [← hk.thread_eq] at h1 h3
  rw [← hk.idx_eq] at h2 h3
  rw [← hk.rkndoOk_eq] at h4
  exact ⟨h1, h2, h3, h4⟩

section Control

variable {env : Env} {s : State}

theorem MainSide.main_at (h : MainSide s) {pc : MainPc} (hpc : s.main = pc) : pc.Reached :=
  hpc ▸ h.main_reached

theorem ThreadSide.thread_at (h : ThreadSide s) {pc : ThreadPc} (hpc : s.thread = pc) :
    pc.Reached :=
  hpc ▸ h.thread_reached

theorem MainSide.poll (env : Env) (h : MainSide s) (hpc : s.main = .poll) :
    ∃ g, mainStep env s =
        { s with globals := g, offsets := s.offsets ++ [420], main := .clear } ∧ Cropped g := by
  obtain ⟨g, hcrop, hg, -⟩ := pollingdecetbox_spec h.configured
  refine ⟨g, ?_, hg⟩
  simp only [mainStep, hpc, hcrop]
  rfl

theorem MainSide.draw (env : Env) (h : MainSide s) (hpc : s.main = .draw) :
    ∃ st, drawResult s.globals s.runResult.list (env.readings s.frame) = some st ∧
      Configured st.globals ∧
      mainStep env s =
        { s with
          globals := st.globals
          drawn := s.drawn ++ [⟨s.runResult, st.printed, st.aims⟩]
          frame := s.frame + 1
          main := .poll } := by
  obtain ⟨st, hdraw, hst, -⟩ :=
    drawResult_spec h.configured s.runResult.list (env.readings s.frame)
  refine ⟨st, hdraw, hst, ?_⟩
  simp only [mainStep, hpc, hdraw]

theorem eq_zero_of_set {flag : Fin 2 → Bool} (hone : flag 1 = false) {i : Fin 2}
    (hset : flag i = true) : i = 0 := by
  have hne : i ≠ 1 := by
    intro hi
    rw [hi, hone] at hset
    exact absurd hset (by simp)
  omega

theorem ThreadSide.slot_of_done (h : ThreadSide s) {i : Fin 2} (hdone : s.rkndoOk i = true) :
    i = 0 := eq_zero_of_set h.rkndoOk_one hdone

theorem Control.slot_of_set (h : Control s) {i : Fin 2} (hset : s.resizeOk i = true) :
    i = 0 := eq_zero_of_set h.resizeOk_one hset

theorem Control.slot_free (h : Control s) (hpc : s.main.waiting = false) :
    s.resizeOk 0 = false := by
  by_contra hset
  have hwait := h.resizeOk_zero (Bool.not_eq_false _ ▸ hset)
  exact absurd (hwait.symm.trans hpc) (by simp)

theorem MainSide.mainStep (h : Control s) : MainSide (mainStep env s) := by
  have hcrop : s.main ≠ .poll → Cropped s.globals := h.cropped
  cases hpc : s.main with
  | poll =>
      obtain ⟨g, hstep, hg⟩ := h.toMainSide.poll env hpc
      rw [hstep]
      exact ⟨trivial, hg.toConfigured, fun _ => hg⟩
  | draw =>
      obtain ⟨st, -, hst, hstep⟩ := h.toMainSide.draw env hpc
      rw [hstep]
      exact ⟨trivial, hst, fun hne => absurd rfl hne⟩
  | aborted =>
      exact (h.main_at hpc).elim
  | clear =>
      unfold Pipeline.mainStep
      simp only [hpc]
      exact ⟨trivial, h.configured, fun _ => hcrop (by simp [hpc])⟩
  | resize =>
      unfold Pipeline.mainStep
      simp only [hpc]
      split <;> exact ⟨rfl, h.configured, fun _ => hcrop (by simp [hpc])⟩
  | addRead i =>
      have hi : i = 0 := h.main_at hpc
      subst hi
      simp only [Pipeline.mainStep, hpc, h.slot_free (by rw [hpc]; rfl)]
      exact ⟨rfl, h.configured, fun _ => hcrop (by simp [hpc])⟩
  | addStore i =>
      have hreached := h.main_at hpc
      unfold Pipeline.mainStep
      simp only [hpc]
      exact ⟨hreached, h.configured, fun _ => hcrop (by simp [hpc])⟩
  | addSet i =>
      unfold Pipeline.mainStep
      simp only [hpc]
      exact ⟨trivial, h.configured, fun _ => hcrop (by simp [hpc])⟩
  | getRead i =>
      unfold Pipeline.mainStep
      simp only [hpc]
      refine ⟨?_, h.configured, fun _ => hcrop (by simp [hpc])⟩
      split
      · rename_i hdone
        exact h.slot_of_done hdone
      · trivial
  | getCopy i =>
      have hreached := h.main_at hpc
      unfold Pipeline.mainStep
      simp only [hpc]
      exact ⟨hreached, h.configured, fun _ => hcrop (by simp [hpc])⟩
  | getClear i =>
      unfold Pipeline.mainStep
      simp only [hpc]
      exact ⟨trivial, h.configured, fun _ => hcrop (by simp [hpc])⟩

theorem mainStep_resizeOk (env : Env) (h : MainSide s) :
    (mainStep env s).resizeOk 1 = s.resizeOk 1 ∧
      ((mainStep env s).resizeOk 0 = true →
        s.main = .addSet 0 ∨ (s.resizeOk 0 = true ∧ ∀ i, s.main ≠ .getClear i)) := by
  cases hpc : s.main with
  | poll =>
      obtain ⟨g, hstep, -⟩ := h.poll env hpc
      rw [hstep]
      exact ⟨rfl, fun hset => .inr ⟨hset, by simp⟩⟩
  | draw =>
      obtain ⟨st, -, -, hstep⟩ := h.draw env hpc
      rw [hstep]
      exact ⟨rfl, fun hset => .inr ⟨hset, by simp⟩⟩
  | addSet i =>
      have hi : i = 0 := h.main_at hpc
      subst hi
      simp [mainStep, hpc]
  | getClear i =>
      have hi : i = 0 := h.main_at hpc
      subst hi
      simp [mainStep, hpc]
  | resize =>
      unfold mainStep
      simp only [hpc]
      split <;> exact ⟨rfl, fun hset => .inr ⟨hset, by simp⟩⟩
  | clear | addRead i | addStore i | getRead i | getCopy i | aborted =>
      unfold mainStep
      simp only [hpc]
      exact ⟨trivial, fun hset => .inr ⟨hset, by simp⟩⟩

theorem Control.mainStep (h : Control s) : Control (mainStep env s) := by
  obtain ⟨hone, hzero⟩ := mainStep_resizeOk env h.toMainSide
  refine ⟨MainSide.mainStep h, h.toThreadSide.keep (mainKeeps env s),
    hone.trans h.resizeOk_one, ?_⟩
  intro hset
  rcases hzero hset with hpc | ⟨hset, hclear⟩
  · unfold Pipeline.mainStep
    simp only [hpc]
    rfl
  · have hwait := h.resizeOk_zero hset
    cases hpc : s.main with
    | getRead i =>
        unfold Pipeline.mainStep
        simp only [hpc]
        split <;> rfl
    | getCopy i =>
        unfold Pipeline.mainStep
        simp only [hpc]
        rfl
    | getClear i => exact absurd hpc (hclear i)
    | poll | clear | resize | addRead i | addStore i | addSet i | draw | aborted =>
        rw [hpc] at hwait
        exact absurd hwait (by simp [MainPc.waiting])

theorem ThreadSide.threadStep (h : Control s) : ThreadSide (threadStep env s) := by
  have hone := h.rkndoOk_one
  cases hpc : s.thread with
  | scan i =>
      unfold Pipeline.threadStep
      simp only [hpc]
      split
      · rename_i hset
        have hidx : ∀ j, some i = some j → j = 0 := by
          intro j hj
          rw [← Option.some.inj hj]
          exact h.slot_of_set hset
        exact ⟨trivial, hidx, fun j hj => absurd hj (by simp), hone⟩
      · refine ⟨?_, h.idx_zero, ?_, hone⟩
        · show ThreadPc.Reached (if i = 0 then .scan 1 else .check)
          split <;> trivial
        · intro j hj
          have hne : (if i = 0 then ThreadPc.scan 1 else .check) ≠ .copy j := by
            split <;> simp
          exact absurd hj hne
  | check =>
      unfold Pipeline.threadStep
      simp only [hpc]
      split
      · rename_i i hidx
        refine ⟨h.idx_zero i hidx, h.idx_zero, ?_, hone⟩
        intro j hj
        rw [← ThreadPc.copy.inj hj]
        exact hidx
      · exact ⟨trivial, h.idx_zero, fun j hj => absurd hj (by simp), hone⟩
  | copy i =>
      have hreached := h.thread_at hpc
      unfold Pipeline.threadStep
      simp only [hpc]
      split
      · exact ⟨hreached, h.idx_zero, fun j hj => absurd hj (by simp), hone⟩
      · exact ⟨trivial, h.idx_zero, fun j hj => absurd hj (by simp), hone⟩
  | infer i | clearResize i =>
      have hreached := h.thread_at hpc
      unfold Pipeline.threadStep
      simp only [hpc]
      exact ⟨hreached, h.idx_zero, fun j hj => absurd hj (by simp), hone⟩
  | setDo i =>
      have hi : i = 0 := h.thread_at hpc
      subst hi
      unfold Pipeline.threadStep
      simp only [hpc]
      exact ⟨trivial, h.idx_zero, fun j hj => absurd hj (by simp), hone⟩
  | crashed =>
      unfold Pipeline.threadStep
      simp only [hpc]
      exact h.toThreadSide

theorem threadStep_resizeOk (env : Env) (s : State) (j : Fin 2) :
    (threadStep env s).resizeOk j = if s.thread = .clearResize j then false else s.resizeOk j := by
  cases hpc : s.thread with
  | scan i =>
      simp only [threadStep, hpc, reduceCtorEq, if_false]
      split <;> rfl
  | check =>
      simp only [threadStep, hpc, reduceCtorEq, if_false]
      split <;> rfl
  | copy i =>
      simp only [threadStep, hpc, reduceCtorEq, if_false]
      split <;> rfl
  | clearResize i =>
      simp only [threadStep, hpc, ThreadPc.clearResize.injEq, Function.update_apply, eq_comm]
  | infer i | setDo i | crashed =>
      simp only [threadStep, hpc, reduceCtorEq, if_false]

theorem Control.threadStep (h : Control s) : Control (threadStep env s) := by
  have hk := threadKeeps env s
  have hflag : ∀ j, (Pipeline.threadStep env s).resizeOk j = true → s.resizeOk j = true := by
    intro j hset
    rw [threadStep_resizeOk] at hset
    split at hset
    · exact absurd hset (by simp)
    · exact hset
  refine ⟨h.toMainSide.keep hk, ThreadSide.threadStep h, ?_, ?_⟩
  · by_contra hset
    exact absurd (h.resizeOk_one.symm.trans (hflag 1 (Bool.not_eq_false _ ▸ hset))) (by simp)
  · intro hset
    rw [hk.main_eq]
    exact h.resizeOk_zero (hflag 0 hset)

theorem Control.step (h : Control s) (p : Proc) : Control (step env s p) := by
  cases p with
  | main => exact h.mainStep
  | thread => exact h.threadStep

end Control

theorem control_after (env : Env) (schedule : List Proc) : Control (after env schedule) :=
  run_invariant control_init (fun _ p h => h.step p) schedule

/-! ## The history -/

/-- What the history records: every frame is polled, accepted and drawn once and in order. -/
structure Book (s : State) : Prop where
  offsets_eq : s.offsets = List.replicate (if s.main = .poll then s.frame else s.frame + 1) 420
  drawn_length : s.drawn.length = s.frame
  accepted_eq : s.accepted =
    (List.range (if s.main.accepted then s.frame + 1 else s.frame)).map fun k => (k, 0)
  slot_frame : (s.resizeImages 0).frame =
    if s.main.stored then some s.frame else if s.frame = 0 then none else some (s.frame - 1)
  idx_frame : s.idx ≠ none → (s.resizeImages 0).frame ≠ none

theorem book_init : Book .init where
  offsets_eq := rfl
  drawn_length := rfl
  accepted_eq := rfl
  slot_frame := rfl
  idx_frame := fun h => absurd rfl h

section Book

variable {env : Env} {s : State}

theorem Book.mainStep (h : Book s) (hc : Control s) : Book (mainStep env s) := by
  obtain ⟨hoffsets, hdrawn, haccepted, hslot, hidx⟩ := h
  cases hpc : s.main with
  | poll =>
      obtain ⟨g, hstep, -⟩ := hc.toMainSide.poll env hpc
      rw [hpc] at hoffsets haccepted hslot
      rw [hstep]
      refine ⟨?_, hdrawn, haccepted, hslot, hidx⟩
      rw [hoffsets]
      exact (List.replicate_succ' ..).symm
  | draw =>
      obtain ⟨st, -, -, hstep⟩ := hc.toMainSide.draw env hpc
      rw [hpc] at hoffsets haccepted hslot
      rw [hstep]
      exact ⟨hoffsets, by simp [hdrawn], haccepted, hslot, hidx⟩
  | aborted =>
      exact (hc.main_at hpc).elim
  | clear =>
      rw [hpc] at hoffsets haccepted hslot
      unfold Pipeline.mainStep
      simp only [hpc]
      exact ⟨hoffsets, hdrawn, haccepted, hslot, hidx⟩
  | resize =>
      rw [hpc] at hoffsets haccepted hslot
      unfold Pipeline.mainStep
      simp only [hpc]
      split <;> exact ⟨hoffsets, hdrawn, haccepted, hslot, hidx⟩
  | addRead i =>
      rw [hpc] at hoffsets haccepted hslot
      unfold Pipeline.mainStep
      simp only [hpc]
      split <;> exact ⟨hoffsets, hdrawn, haccepted, hslot, hidx⟩
  | addStore i =>
      rw [hpc] at hoffsets haccepted
      have hi : i = 0 := hc.main_at hpc
      subst hi
      unfold Pipeline.mainStep
      simp only [hpc]
      exact ⟨hoffsets, hdrawn, haccepted, rfl, fun _ => by simp⟩
  | addSet i =>
      rw [hpc] at hoffsets haccepted hslot
      have hi : i = 0 := hc.main_at hpc
      subst hi
      unfold Pipeline.mainStep
      simp only [hpc]
      refine ⟨hoffsets, hdrawn, ?_, hslot, hidx⟩
      rw [haccepted]
      calc (List.range s.frame).map (fun k => (k, (0 : Fin 2))) ++ [(s.frame, 0)]
          = (List.range s.frame ++ [s.frame]).map fun k => (k, 0) := by
            rw [List.map_append, List.map_singleton]
        _ = (List.range (s.frame + 1)).map fun k => (k, 0) := by rw [List.range_succ]
  | getRead i =>
      rw [hpc] at hoffsets haccepted hslot
      unfold Pipeline.mainStep
      simp only [hpc]
      split <;> exact ⟨hoffsets, hdrawn, haccepted, hslot, hidx⟩
  | getCopy i =>
      rw [hpc] at hoffsets haccepted hslot
      unfold Pipeline.mainStep
      simp only [hpc]
      exact ⟨hoffsets, hdrawn, haccepted, hslot, hidx⟩
  | getClear i =>
      rw [hpc] at hoffsets haccepted hslot
      unfold Pipeline.mainStep
      simp only [hpc]
      exact ⟨hoffsets, hdrawn, haccepted, hslot, hidx⟩

theorem threadStep_idx (env : Env) (s : State) :
    (threadStep env s).idx = s.idx ∨
      ∃ i, s.resizeOk i = true ∧ (threadStep env s).idx = some i := by
  cases hpc : s.thread with
  | scan i =>
      unfold threadStep
      simp only [hpc]
      split
      · rename_i hset
        exact .inr ⟨i, hset, rfl⟩
      · exact .inl rfl
  | check | copy i =>
      unfold threadStep
      simp only [hpc]
      split <;> exact .inl rfl
  | infer i | clearResize i | setDo i | crashed =>
      unfold threadStep
      simp only [hpc]
      exact .inl trivial

theorem Book.threadStep (h : Book s) (hc : Control s) : Book (threadStep env s) := by
  have hk := threadKeeps env s
  obtain ⟨hoffsets, hdrawn, haccepted, hslot, hidx⟩ := h
  constructor
  · rw [hk.offsets_eq, hk.main_eq, hk.frame_eq, hoffsets]
  · rw [hk.drawn_eq, hk.frame_eq, hdrawn]
  · rw [hk.accepted_eq, hk.main_eq, hk.frame_eq, haccepted]
  · rw [hk.resizeImages_eq, hk.main_eq, hk.frame_eq, hslot]
  · intro hne
    rw [hk.resizeImages_eq]
    rcases threadStep_idx env s with heq | ⟨i, hset, -⟩
    · exact hidx (heq ▸ hne)
    · have hwait : s.main.waiting = true := by
        rw [hc.slot_of_set hset] at hset
        exact hc.resizeOk_zero hset
      have hstored : s.main.stored = true := by
        revert hwait
        cases s.main <;> simp [MainPc.waiting, MainPc.stored]
      rw [hslot, if_pos hstored]
      simp

theorem Book.step (h : Book s) (hc : Control s) (p : Proc) : Book (step env s p) := by
  cases p with
  | main => exact h.mainStep hc
  | thread => exact h.threadStep hc

end Book

theorem book_after (env : Env) (schedule : List Proc) : Book (after env schedule) :=
  (run_invariant (I := fun s => Control s ∧ Book s) ⟨control_init, book_init⟩
    (fun _ p h => ⟨h.1.step p, h.2.step h.1 p⟩) schedule).2

/-! ## The images -/

namespace Pixels

def Below (n : ℕ) : Pixels → Prop
  | blank => True
  | frame k => k < n

theorem Below.mono {n m : ℕ} (h : n ≤ m) {p : Pixels} (hp : p.Below n) : p.Below m := by
  cases p with
  | blank => trivial
  | frame k => exact lt_of_lt_of_le hp h

end Pixels

def Mat.Below (n : ℕ) (m : Mat) : Prop := ∀ p, m = .own p → p.Below n

def Result.Below (n : ℕ) (r : Result) : Prop := ∀ p, r.source = some p → p.Below n

theorem Mat.Below.mono {n m : ℕ} (h : n ≤ m) {a : Mat} (ha : a.Below n) : a.Below m :=
  fun p hp => (ha p hp).mono h

theorem Result.Below.mono {n m : ℕ} (h : n ≤ m) {r : Result} (hr : r.Below n) : r.Below m :=
  fun p hp => (hr p hp).mono h

structure Sourced (n : ℕ) (s : State) : Prop where
  dstBuf : s.dstBuf.Below n
  letterboxImage : s.letterboxImage.Below n
  resizeImages : ∀ i, (s.resizeImages i).image.Below n
  input : s.input.Below n
  odResults : ∀ i, (s.odResults i).Below n
  runResult : s.runResult.Below n
  drawn : ∀ d ∈ s.drawn, d.result.Below n

theorem sourced_init (n : ℕ) : Sourced n .init where
  dstBuf := trivial
  letterboxImage := fun _ hp => absurd hp (by simp [State.init])
  resizeImages := fun _ _ hp => absurd hp (by simp [State.init])
  input := trivial
  odResults := fun _ _ hp => absurd hp (by simp [State.init])
  runResult := fun _ hp => absurd hp (by simp [State.init])
  drawn := fun _ hd => absurd hd List.not_mem_nil

section Sourced

variable {env : Env} {s : State} {n : ℕ}

theorem Sourced.mono {m : ℕ} (h : Sourced n s) (hnm : n ≤ m) : Sourced m s where
  dstBuf := h.dstBuf.mono hnm
  letterboxImage := h.letterboxImage.mono hnm
  resizeImages := fun i => (h.resizeImages i).mono hnm
  input := h.input.mono hnm
  odResults := fun i => (h.odResults i).mono hnm
  runResult := h.runResult.mono hnm
  drawn := fun d hd => (h.drawn d hd).mono hnm

theorem Sourced.mainStep (h : Sourced n s) (hframe : s.main = .resize → s.frame < n) :
    Sourced n (mainStep env s) := by
  obtain ⟨hdst, hletter, hslots, hinput, hod, hrun, hdrawn⟩ := h
  cases hpc : s.main with
  | poll =>
      unfold Pipeline.mainStep
      simp only [hpc]
      split <;> exact ⟨hdst, hletter, hslots, hinput, hod, hrun, hdrawn⟩
  | clear =>
      unfold Pipeline.mainStep
      simp only [hpc]
      exact ⟨trivial, hletter, hslots, hinput, hod, hrun, hdrawn⟩
  | resize =>
      have hlt := hframe hpc
      unfold Pipeline.mainStep
      simp only [hpc]
      split
      · exact ⟨hdst, fun _ hp => absurd hp (by simp), hslots, hinput, hod, hrun, hdrawn⟩
      · exact ⟨hlt, fun _ hp => absurd hp (by simp), hslots, hinput, hod, hrun, hdrawn⟩
      · exact ⟨hdst, fun _ hp => Mat.own.inj hp ▸ hlt, hslots, hinput, hod, hrun, hdrawn⟩
  | addRead i | getRead i =>
      unfold Pipeline.mainStep
      simp only [hpc]
      split <;> exact ⟨hdst, hletter, hslots, hinput, hod, hrun, hdrawn⟩
  | addStore i =>
      unfold Pipeline.mainStep
      simp only [hpc]
      refine ⟨hdst, hletter, ?_, hinput, hod, hrun, hdrawn⟩
      intro j
      simp only [Function.update_apply]
      split
      · exact hletter
      · exact hslots j
  | addSet i | getClear i =>
      unfold Pipeline.mainStep
      simp only [hpc]
      exact ⟨hdst, hletter, hslots, hinput, hod, hrun, hdrawn⟩
  | getCopy i =>
      unfold Pipeline.mainStep
      simp only [hpc]
      exact ⟨hdst, hletter, hslots, hinput, hod, hod i, hdrawn⟩
  | draw =>
      unfold Pipeline.mainStep
      simp only [hpc]
      split
      · refine ⟨hdst, hletter, hslots, hinput, hod, hrun, ?_⟩
        intro d hd
        rcases List.mem_append.mp hd with hd | hd
        · exact hdrawn d hd
        · rw [List.mem_singleton.mp hd]
          exact hrun
      · exact ⟨hdst, hletter, hslots, hinput, hod, hrun, hdrawn⟩
  | aborted =>
      unfold Pipeline.mainStep
      simp only [hpc]
      exact ⟨hdst, hletter, hslots, hinput, hod, hrun, hdrawn⟩

theorem Sourced.threadStep (h : Sourced n s) : Sourced n (threadStep env s) := by
  obtain ⟨hdst, hletter, hslots, hinput, hod, hrun, hdrawn⟩ := h
  cases hpc : s.thread with
  | scan i | check =>
      unfold Pipeline.threadStep
      simp only [hpc]
      split <;> exact ⟨hdst, hletter, hslots, hinput, hod, hrun, hdrawn⟩
  | copy i =>
      unfold Pipeline.threadStep
      simp only [hpc]
      split
      · rename_i p hp
        refine ⟨hdst, hletter, hslots, ?_, hod, hrun, hdrawn⟩
        cases himage : (s.resizeImages i).image with
        | empty => simp [himage, Mat.pixels] at hp
        | view =>
            rw [himage] at hp
            exact Option.some.inj hp ▸ hdst
        | own q =>
            rw [himage] at hp
            exact Option.some.inj hp ▸ hslots i q himage
      · exact ⟨hdst, hletter, hslots, hinput, hod, hrun, hdrawn⟩
  | infer i =>
      unfold Pipeline.threadStep
      simp only [hpc]
      refine ⟨hdst, hletter, hslots, hinput, ?_, hrun, hdrawn⟩
      intro j
      split
      · exact hod j
      · simp only [Function.update_apply]
        split
        · exact fun p hp => Option.some.inj hp ▸ hinput
        · exact hod j
  | clearResize i | setDo i | crashed =>
      unfold Pipeline.threadStep
      simp only [hpc]
      exact ⟨hdst, hletter, hslots, hinput, hod, hrun, hdrawn⟩

theorem offsets_mono (env : Env) (s : State) (p : Proc) :
    s.offsets.length ≤ (step env s p).offsets.length := by
  cases p with
  | main =>
      show _ ≤ (Pipeline.mainStep env s).offsets.length
      unfold Pipeline.mainStep
      split <;> (try split) <;> simp
  | thread => exact (congrArg List.length (threadKeeps env s).offsets_eq).ge

theorem Sourced.step (h : Sourced s.offsets.length s) (hb : Book s) (p : Proc) :
    Sourced (step env s p).offsets.length (step env s p) := by
  apply Sourced.mono _ (offsets_mono env s p)
  cases p with
  | main =>
      apply h.mainStep
      intro hpc
      rw [hb.offsets_eq, List.length_replicate, hpc]
      exact Nat.lt_succ_self _
  | thread => exact h.threadStep

end Sourced

theorem sourced_after (env : Env) (schedule : List Proc) :
    Sourced (after env schedule).offsets.length (after env schedule) :=
  (run_invariant (I := fun s => (Control s ∧ Book s) ∧ Sourced s.offsets.length s)
    ⟨⟨control_init, book_init⟩, sourced_init _⟩
    (fun _ p h => ⟨⟨h.1.1.step p, h.1.2.step h.1.1 p⟩, h.2.step h.1.2 p⟩) schedule).2

end CatDect.Pipeline
