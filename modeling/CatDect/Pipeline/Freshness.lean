import CatDect.Pipeline.Queue
import CatDect.Support.Stages

/-!
# The order in which results are drawn

A frame is handed from `dst_buf` or the image in the slot to the network input, the result
slot and the list of `main`.  However the two processes interleave, no copy brings an
earlier frame back: what is drawn may be stale, or drawn again, but never goes back in time.
-/

namespace CatDect.Pipeline

open CatDect.Support CatDect.ImageHandle

def Pixels.number : Pixels → Option ℕ
  | blank => none
  | frame k => some k

def Result.shown (r : Result) : Option ℕ := r.source.bind Pixels.number

namespace State

def offered (s : State) (i : Fin 2) : Option ℕ :=
  ((s.resizeImages i).image.pixels s.dstBuf).bind Pixels.number

def shown (s : State) : List (Option ℕ) := s.drawn.map fun d => d.result.shown

/-- What was drawn, and what is on its way to be drawn. -/
def stages (s : State) (i : Fin 2) : List (Option ℕ) :=
  s.shown ++ [s.runResult.shown, (s.odResults i).shown, s.input.number, s.offered i]

end State

structure InTime (s : State) : Prop where
  ordered : Ordered (s.stages 0)
  made : ∀ (k : ℕ) (d : Drawn) (f : ℕ), s.drawn[k]? = some d → d.result.shown = some f → f ≤ k

theorem inTime_init : InTime .init where
  ordered := by
    have hstages : State.init.stages 0 = [none, none, none, none] := rfl
    rw [hstages]
    simp [Ordered, notAfter_none]
  made := fun _ _ _ hd => absurd hd (by simp [State.init])

section InTime

variable {env : Env} {s s' : State}

theorem Result.shown_lt {r : Result} {n f : ℕ} (h : r.Below n) (hf : r.shown = some f) :
    f < n := by
  obtain ⟨p, hp, hnumber⟩ := Option.bind_eq_some_iff.mp hf
  have hbelow := h p hp
  cases p with
  | blank => exact absurd hnumber (by simp [Pixels.number])
  | frame k =>
      obtain rfl : k = f := Option.some.inj hnumber
      exact hbelow

theorem Pixels.number_lt {p : Pixels} {n f : ℕ} (h : p.Below n) (hf : p.number = some f) :
    f < n := by
  cases p with
  | blank => exact absurd hf (by simp [Pixels.number])
  | frame k =>
      obtain rfl : k = f := Option.some.inj hf
      exact h

theorem Env.own_eq_frame {k : ℕ} {p : Pixels} (h : env.letterboxMat k = .own p) :
    p = .frame k := by
  unfold Env.letterboxMat at h
  split at h
  · exact absurd h (by simp)
  · exact absurd h (by simp)
  · exact (Mat.own.inj h).symm

theorem Sourced.notAfter_frame (h : Sourced (s.frame + 1) s) :
    ∀ x ∈ s.shown ++ [s.runResult.shown, (s.odResults 0).shown, s.input.number],
      NotAfter x (some s.frame) := by
  intro x hx f g hf hg
  obtain rfl : s.frame = g := Option.some.inj hg
  apply Nat.lt_succ_iff.mp
  rcases List.mem_append.mp hx with hx | hx
  · obtain ⟨d, hd, rfl⟩ := List.mem_map.mp hx
    exact Result.shown_lt (h.drawn d hd) hf
  · simp only [List.mem_cons, List.not_mem_nil, or_false] at hx
    rcases hx with rfl | rfl | rfl
    · exact Result.shown_lt h.runResult hf
    · exact Result.shown_lt (h.odResults 0) hf
    · exact Pixels.number_lt h.input hf

theorem InTime.offer (h : InTime s) (hs : Sourced (s.frame + 1) s)
    (hdrawn : s'.drawn = s.drawn) (hrun : s'.runResult = s.runResult)
    (hod : s'.odResults = s.odResults) (hinput : s'.input = s.input)
    (hoffered : s'.offered 0 = none ∨ s'.offered 0 = s.offered 0 ∨ s'.offered 0 = some s.frame) :
    InTime s' := by
  have hmade := h.made
  rw [← hdrawn] at hmade
  refine ⟨?_, hmade⟩
  have hstages : s'.stages 0 = s.shown ++
      [s.runResult.shown, (s.odResults 0).shown, s.input.number] ++ [s'.offered 0] := by
    rw [State.stages, State.shown, hdrawn, hrun, hod, hinput, List.append_assoc]
    rfl
  have hordered : Ordered (s.shown ++
      [s.runResult.shown, (s.odResults 0).shown, s.input.number] ++ [s.offered 0]) := by
    rw [List.append_assoc]
    exact h.ordered
  rw [hstages]
  rcases hoffered with hnone | hsame | hframe
  · rw [hnone]
    exact hordered.feed fun x _ => notAfter_none x
  · rw [hsame]
    exact hordered
  · rw [hframe]
    exact hordered.feed hs.notAfter_frame

theorem InTime.of_same (h : InTime s) (hstages : s'.stages 0 = s.stages 0)
    (hdrawn : s'.drawn = s.drawn) : InTime s' where
  ordered := hstages ▸ h.ordered
  made := hdrawn ▸ h.made

theorem InTime.mainStep (h : InTime s) (hc : Control s) (hb : Book s) (hv : Views env s)
    (hs : Sourced s.offsets.length s) : InTime (mainStep env s) := by
  have hsourced : s.main ≠ .poll → Sourced (s.frame + 1) s := by
    intro hpc
    have hlength := hb.offsets_eq
    rw [if_neg hpc] at hlength
    rw [hlength, List.length_replicate] at hs
    exact hs
  cases hpc : s.main with
  | poll =>
      obtain ⟨g, hstep, -⟩ := hc.toMainSide.poll env hpc
      rw [hstep]
      exact h.of_same rfl rfl
  | clear =>
      have hstep : Pipeline.mainStep env s = { s with dstBuf := .blank, main := .resize } := by
        simp only [Pipeline.mainStep, hpc]
      rw [hstep]
      refine h.offer (hsourced (by simp [hpc])) rfl rfl rfl rfl ?_
      unfold State.offered
      cases (s.resizeImages 0).image with
      | empty => exact .inl rfl
      | view => exact .inl rfl
      | own p => exact .inr (.inl rfl)
  | resize =>
      cases hrga : env.rga s.frame with
      | importFailed | resizeFailed =>
          simp only [Pipeline.mainStep, hpc, hrga]
          exact h.of_same rfl rfl
      | resized =>
          simp only [Pipeline.mainStep, hpc, hrga]
          refine h.offer (hsourced (by simp [hpc])) rfl rfl rfl rfl ?_
          unfold State.offered
          cases (s.resizeImages 0).image with
          | empty => exact .inl rfl
          | view => exact .inr (.inr rfl)
          | own p => exact .inr (.inl rfl)
  | addStore i =>
      have hi : i = 0 := hc.main_at hpc
      subst hi
      have himage := hv.letterbox_eq 0 (.inr hpc)
      have hdst := hv.dstBuf_eq
      rw [hpc] at hdst
      simp only [Pipeline.mainStep, hpc]
      refine h.offer (hsourced (by simp [hpc])) rfl rfl rfl rfl ?_
      unfold State.offered
      simp only [Function.update_self, himage]
      cases hmat : env.letterboxMat s.frame with
      | empty => exact .inl rfl
      | view =>
          right
          right
          rw [hdst]
          show (env.letterboxDst s.frame).number = some s.frame
          rw [Env.letterboxDst_of_resized (Env.resized_of_view hmat)]
          rfl
      | own p =>
          right
          right
          rw [Env.own_eq_frame hmat]
          rfl
  | getCopy i =>
      have hi : i = 0 := hc.main_at hpc
      subst hi
      simp only [Pipeline.mainStep, hpc]
      exact ⟨h.ordered.copy, h.made⟩
  | draw =>
      obtain ⟨st, -, -, hstep⟩ := hc.toMainSide.draw env hpc
      rw [hstep]
      constructor
      · show Ordered (List.map _ (s.drawn ++ [_]) ++ _)
        rw [List.map_append]
        exact h.ordered.record
      · intro k d f hd hf
        rcases Nat.lt_or_ge k s.drawn.length with hk | hk
        · rw [List.getElem?_append_left hk] at hd
          exact h.made k d f hd hf
        · rw [List.getElem?_append_right hk] at hd
          obtain rfl : d = _ := (List.mem_singleton.mp (List.mem_of_getElem? hd))
          have hlt := Result.shown_lt (hsourced (by simp [hpc])).runResult hf
          have hframe := hb.drawn_length
          omega
  | addRead i | getRead i =>
      unfold Pipeline.mainStep
      simp only [hpc]
      split <;> exact h.of_same rfl rfl
  | addSet i | getClear i =>
      simp only [Pipeline.mainStep, hpc]
      exact h.of_same rfl rfl
  | aborted => exact absurd (hc.main_at hpc) id

theorem InTime.threadStep (h : InTime s) (hc : Control s) : InTime (threadStep env s) := by
  cases hpc : s.thread with
  | copy i =>
      have hi : i = 0 := hc.thread_at hpc
      subst hi
      cases hpixels : (s.resizeImages 0).image.pixels s.dstBuf with
      | none =>
          simp only [Pipeline.threadStep, hpc, hpixels]
          exact h.of_same rfl rfl
      | some p =>
          have hoffered : s.offered 0 = p.number := by
            rw [State.offered, hpixels]
            rfl
          have hordered : Ordered (s.shown ++ [s.runResult.shown, (s.odResults 0).shown] ++
              [s.input.number, s.offered 0]) := by
            rw [List.append_assoc]
            exact h.ordered
          have hcopied := hordered.copy
          rw [List.append_assoc] at hcopied
          simp only [Pipeline.threadStep, hpc, hpixels]
          refine ⟨?_, h.made⟩
          show Ordered
            (s.shown ++ [s.runResult.shown, (s.odResults 0).shown, p.number, s.offered 0])
          rw [← hoffered]
          exact hcopied
  | infer i =>
      have hi : i = 0 := hc.thread_at hpc
      subst hi
      have hordered : Ordered (s.shown ++ [s.runResult.shown] ++
          [(s.odResults 0).shown, s.input.number, s.offered 0]) := by
        rw [List.append_assoc]
        exact h.ordered
      have hcopied := hordered.copy
      rw [List.append_assoc] at hcopied
      simp only [Pipeline.threadStep, hpc]
      refine ⟨?_, h.made⟩
      split
      · exact h.ordered
      · simp only [State.stages, Function.update_self]
        exact hcopied
  | scan i | check =>
      unfold Pipeline.threadStep
      simp only [hpc]
      split <;> exact h.of_same rfl rfl
  | clearResize i | setDo i | crashed =>
      simp only [Pipeline.threadStep, hpc]
      exact h.of_same rfl rfl

theorem InTime.step
    (h : (((Control s ∧ Book s) ∧ Views env s) ∧ Sourced s.offsets.length s) ∧ InTime s)
    (p : Proc) : InTime (step env s p) := by
  obtain ⟨⟨⟨⟨hc, hb⟩, hv⟩, hs⟩, htime⟩ := h
  cases p with
  | main => exact htime.mainStep hc hb hv hs
  | thread => exact htime.threadStep hc

end InTime

end CatDect.Pipeline
