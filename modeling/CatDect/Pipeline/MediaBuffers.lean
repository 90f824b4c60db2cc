import CatDect.Support.AcquireRelease

/-!
# Frames and streams

Both loops that take buffers from the media library test the return code of the get call
only around the use of the buffer, and release whatever the structure holds in every round.
-/

namespace CatDect.Pipeline

open CatDect.Support Use

/-! ## The loops -/

def rkSuccess : ℤ := 0

/-- The return code of a get call, and the buffer that it writes if it succeeds. -/
structure GetOutcome (φ : Type) where
  ret : ℤ
  buffer : φ
deriving DecidableEq

/-- The rounds of a loop; `stFrame` is the structure, which a failed get leaves as it was. -/
def bufferLoop {φ : Type} (stFrame : φ) : List (GetOutcome φ) → List (Use φ)
  | [] => []
  | get :: gets =>
      if get.ret = rkSuccess then
        acquire get.buffer :: release get.buffer :: bufferLoop get.buffer gets
      else release stFrame :: bufferLoop stFrame gets

/-- The rounds of `main`: `RK_MPI_VPSS_GetChnFrame` and `RK_MPI_VPSS_ReleaseChnFrame`. -/
def captureLoop {Frame : Type} (stVpssFrame : Frame) (gets : List (GetOutcome Frame)) :
    List (Use Frame) :=
  bufferLoop stVpssFrame gets

/-- The rounds of the streaming thread: `RK_MPI_VENC_GetStream` and
`RK_MPI_VENC_ReleaseStream`. -/
def rkipcGetVenc0 {Stream : Type} (stFrame : Stream) (gets : List (GetOutcome Stream)) :
    List (Use Stream) :=
  bufferLoop stFrame gets

/-! ## Pairing -/

theorem bufferLoop_success {φ : Type} {get : GetOutcome φ} (h : get.ret = rkSuccess)
    (stFrame : φ) (gets : List (GetOutcome φ)) :
    bufferLoop stFrame (get :: gets) =
      ([get.buffer].map acquire ++ [get.buffer].map release) ++ bufferLoop get.buffer gets :=
  if_pos h

theorem bufferLoop_failure {φ : Type} {get : GetOutcome φ} (h : get.ret ≠ rkSuccess)
    (stFrame : φ) (gets : List (GetOutcome φ)) :
    bufferLoop stFrame (get :: gets) = release stFrame :: bufferLoop stFrame gets :=
  if_neg h

theorem bufferLoop_paired {φ : Type} [DecidableEq φ] (stFrame : φ)
    (gets : List (GetOutcome φ)) :
    Paired (bufferLoop stFrame gets) ↔ ∀ get ∈ gets, get.ret = rkSuccess := by
  induction gets generalizing stFrame with
  | nil => exact iff_of_true paired_nil fun get hget => absurd hget List.not_mem_nil
  | cons get gets ih =>
      rw [List.forall_mem_cons]
      by_cases hget : get.ret = rkSuccess
      · have hround := paired_acquire_release [get.buffer]
        rw [bufferLoop_success hget, paired_append_iff hround.settled, ih get.buffer]
        exact and_congr_left fun _ => iff_of_true hround hget
      · rw [bufferLoop_failure hget]
        exact iff_of_false (not_paired_release stFrame _) fun h => hget h.1

/-- The buffers of each loop are paired exactly if none of its gets fails. -/
theorem mediaBuffers_paired_iff {Frame Stream : Type} [DecidableEq Frame]
    [DecidableEq Stream] :
    (∀ (stVpssFrame : Frame) (gets : List (GetOutcome Frame)),
      Paired (captureLoop stVpssFrame gets) ↔ ∀ get ∈ gets, get.ret = rkSuccess) ∧
    ∀ (stFrame : Stream) (gets : List (GetOutcome Stream)),
      Paired (rkipcGetVenc0 stFrame gets) ↔ ∀ get ∈ gets, get.ret = rkSuccess :=
  ⟨bufferLoop_paired, bufferLoop_paired⟩

/-- After a failed get, the frame of the round before is released again. -/
theorem mediaBuffers_failedGet :
    captureLoop 0 [⟨rkSuccess, 1⟩, ⟨-1, 2⟩] = [acquire 1, release 1, release 1] ∧
      ¬ Paired (captureLoop 0 [⟨rkSuccess, 1⟩, ⟨-1, 2⟩]) ∧
      ¬ Paired (rkipcGetVenc0 0 [⟨rkSuccess, 1⟩, ⟨-1, 2⟩]) := by
  have hfailed : ¬ ∀ get ∈ ([⟨rkSuccess, 1⟩, ⟨-1, 2⟩] : List (GetOutcome ℕ)),
      get.ret = rkSuccess := by decide
  exact ⟨by decide, (bufferLoop_paired 0 _).not.mpr hfailed,
    (bufferLoop_paired 0 _).not.mpr hfailed⟩

end CatDect.Pipeline
