import CatDect.ImageHandle.RegionSelection
import CatDect.Support.Interleaving
import Mathlib.Logic.Function.Basic

/-!
# The asynchronous pipeline

`main` and `rknn_thread` as two processes over the shared flags, image slots and result
slots, in the build with `USE_RGA_RESIZE` and `USE_ASYNC_RKNN`.  A step is one access to
a flag, one copy of an image or a list, or one inference; what touches only a process's
own variables belongs to the step before it.

The state also keeps the history the results are stated about: which frame an image was
made from, which lists were drawn, which frames were accepted and which were copied.
-/

namespace CatDect.Pipeline

open CatDect.Support CatDect.Postprocess CatDect.ImageHandle

/-! ## The environment -/

/-- How the RGA calls of one `letterbox` call end. -/
inductive LetterboxOutcome
  | importFailed
  | resized
  | resizeFailed
deriving DecidableEq

/-- What is not decided by the code: the RGA and the network, frame by frame and run by
run, and the clock and the switch while `draw_result` works on a frame. -/
structure Env where
  rga : ℕ → LetterboxOutcome
  rknnRun : ℕ → ℤ
  postProcess : ℕ → ObjectDetectResultList
  readings : ℕ → ℕ → Reading

/-! ## Images and lists -/

/-- The contents of an image buffer: cleared, or what `letterbox` made of a frame. -/
inductive Pixels
  | blank
  | frame (k : ℕ)
deriving DecidableEq

/-- A `cv::Mat`: without data, a view of `dst_buf`, or with data of its own. -/
inductive Mat
  | empty
  | view
  | own (p : Pixels)
deriving DecidableEq

/-- A result list, with what the network read when it was inferred. -/
structure Result where
  list : ObjectDetectResultList
  source : Option Pixels

/-- An entry of `resizeImages`, with the frame whose image was stored in it last. -/
structure Slot where
  image : Mat
  frame : Option ℕ

/-- One call of `draw_result`: the list, the lines printed and the aim commands sent. -/
structure Drawn where
  result : Result
  printed : List ObjectDetectResult
  aims : List ImageRect

/-- One `memcpy` into the network input: the frame last stored in the slot and the pixels
copied from it. -/
structure Taken where
  frame : Option ℕ
  pixels : Pixels
deriving DecidableEq

/-! ## The processes -/

/-- The next step of `main`: inside `pollingdecetbox`, `rkn_queue_add`, `rkn_result_get` or
`draw_result`. -/
inductive MainPc
  | poll
  | clear
  | resize
  | addRead (i : Fin 2)
  | addStore (i : Fin 2)
  | addSet (i : Fin 2)
  | getRead (i : Fin 2)
  | getCopy (i : Fin 2)
  | getClear (i : Fin 2)
  | draw
  | aborted
deriving DecidableEq

inductive ThreadPc
  | scan (i : Fin 2)
  | check
  | copy (i : Fin 2)
  | infer (i : Fin 2)
  | clearResize (i : Fin 2)
  | setDo (i : Fin 2)
  | crashed
deriving DecidableEq

inductive Proc
  | main
  | thread
deriving DecidableEq

structure State where
  main : MainPc
  letterboxImage : Mat
  runResult : Result
  globals : Globals
  frame : ℕ
  thread : ThreadPc
  idx : Option (Fin 2)
  input : Pixels
  inferences : ℕ
  resizeOk : Fin 2 → Bool
  rkndoOk : Fin 2 → Bool
  resizeImages : Fin 2 → Slot
  odResults : Fin 2 → Result
  dstBuf : Pixels
  offsets : List ℤ
  accepted : List (ℕ × Fin 2)
  taken : List Taken
  drawn : List Drawn

def otherSlot (i : Fin 2) : Fin 2 := if i = 0 then 1 else 0

def mainStep (env : Env) (s : State) : State :=
  match s.main with
  | .poll =>
      match pollingdecetbox s.globals with
      | some (g, roi) => { s with globals := g, offsets := s.offsets ++ [roi.x], main := .clear }
      | none => { s with main := .aborted }
  | .clear => { s with dstBuf := .blank, main := .resize }
  | .resize =>
      match env.rga s.frame with
      | .importFailed => { s with letterboxImage := .empty, main := .addRead 0 }
      | .resized =>
          { s with dstBuf := .frame s.frame, letterboxImage := .view, main := .addRead 0 }
      | .resizeFailed => { s with letterboxImage := .own (.frame s.frame), main := .addRead 0 }
  | .addRead i =>
      -- after the last index `rkn_queue_add` returns -1 and is called again
      { s with main := if s.resizeOk i then .addRead (otherSlot i) else .addStore i }
  | .addStore i =>
      { s with
        resizeImages := Function.update s.resizeImages i ⟨s.letterboxImage, some s.frame⟩
        main := .addSet i }
  | .addSet i =>
      { s with
        resizeOk := Function.update s.resizeOk i true
        accepted := s.accepted ++ [(s.frame, i)]
        main := .getRead 0 }
  | .getRead i => { s with main := if s.rkndoOk i then .getCopy i else .getRead (otherSlot i) }
  | .getCopy i => { s with runResult := s.odResults i, main := .getClear i }
  | .getClear i => { s with resizeOk := Function.update s.resizeOk i false, main := .draw }
  | .draw =>
      match drawResult s.globals s.runResult.list (env.readings s.frame) with
      | some st =>
          { s with
            globals := st.globals
            drawn := s.drawn ++ [⟨s.runResult, st.printed, st.aims⟩]
            frame := s.frame + 1
            main := .poll }
      | none => { s with main := .aborted }
  | .aborted => s

def Mat.pixels (dstBuf : Pixels) : Mat → Option Pixels
  | .empty => none
  | .view => some dstBuf
  | .own p => some p

/-- A step of `rknn_thread`; `idx` keeps its value over the rounds of the loop. -/
def threadStep (env : Env) (s : State) : State :=
  match s.thread with
  | .scan i =>
      if s.resizeOk i then { s with idx := some i, thread := .check }
      else { s with thread := if i = 0 then .scan 1 else .check }
  | .check =>
      match s.idx with
      | some i => { s with thread := .copy i }
      | none => { s with thread := .scan 0 }
  | .copy i =>
      match (s.resizeImages i).image.pixels s.dstBuf with
      | some p =>
          { s with
            input := p
            taken := s.taken ++ [⟨(s.resizeImages i).frame, p⟩]
            thread := .infer i }
      | none => { s with thread := .crashed }
  | .infer i =>
      -- a failing `rknn_run` leaves the list of the slot as it is
      { s with
        odResults := if env.rknnRun s.inferences < 0 then s.odResults
          else Function.update s.odResults i ⟨env.postProcess s.inferences, some s.input⟩
        inferences := s.inferences + 1
        thread := .clearResize i }
  | .clearResize i =>
      { s with resizeOk := Function.update s.resizeOk i false, thread := .setDo i }
  | .setDo i => { s with rkndoOk := Function.update s.rkndoOk i true, thread := .scan 0 }
  | .crashed => s

def step (env : Env) (s : State) : Proc → State
  | .main => mainStep env s
  | .thread => threadStep env s

def State.init : State where
  main := .poll
  letterboxImage := .empty
  runResult := ⟨.zero, none⟩
  globals := imageHanldeInit .static
  frame := 0
  thread := .scan 0
  idx := none
  input := .blank
  inferences := 0
  resizeOk := fun _ => false
  rkndoOk := fun _ => false
  resizeImages := fun _ => ⟨.empty, none⟩
  odResults := fun _ => ⟨.zero, none⟩
  dstBuf := .blank
  offsets := []
  accepted := []
  taken := []
  drawn := []

def after (env : Env) (schedule : List Proc) : State := run (step env) .init schedule

/-! ## Phases of a frame -/

namespace MainPc

def Reached : MainPc → Prop
  | addRead i | addStore i | addSet i | getCopy i | getClear i => i = 0
  | aborted => False
  | _ => True

def stored : MainPc → Bool
  | addSet _ | getRead _ | getCopy _ | getClear _ | draw => true
  | _ => false

/-- `rkn_queue_add` has returned 0 for the frame in work. -/
def accepted : MainPc → Bool
  | getRead _ | getCopy _ | getClear _ | draw => true
  | _ => false

def waiting : MainPc → Bool
  | getRead _ | getCopy _ | getClear _ => true
  | _ => false

end MainPc

def ThreadPc.Reached : ThreadPc → Prop
  | copy i | infer i | clearResize i | setDo i => i = 0
  | _ => True

end CatDect.Pipeline
