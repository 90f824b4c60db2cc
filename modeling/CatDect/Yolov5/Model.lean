import CatDect.Support.HandleTrace
import CatDect.Support.Loops
import Mathlib.Data.Rat.Defs

/-!
# Loading and releasing the model

`init_yolov5_model` opens a context of the RKNN library, asks it for the attributes of the
tensors and gives each tensor a memory; `release_yolov5_model` gives back what it finds in
the application context.  The library is a record of its answers, and the calls that open,
create, destroy and free are kept in a trace.
-/

namespace CatDect.Yolov5

open CatDect.Support HandleCall

/-! ## The library -/

def rknnMaxDims : ℕ := 16

inductive TensorFormat where
  | nchw
  | nhwc
  | nc1hwc2
  | undefined
deriving DecidableEq

inductive TensorType where
  | float32
  | float16
  | int8
  | uint8
  | int16
  | uint16
  | int32
  | uint32
  | int64
  | bool
  | int4
deriving DecidableEq

inductive QntType where
  | none
  | dfp
  | affineAsymmetric
deriving DecidableEq

/-- The fields of `rknn_tensor_attr` that the program reads or writes. -/
structure TensorAttr where
  dims : Vector ℤ rknnMaxDims
  fmt : TensorFormat
  type : TensorType
  qntType : QntType
  zp : ℤ
  scale : ℚ

def rknnSucc : ℤ := 0

/-- What the library answers to the calls of `init_yolov5_model`; the memories and the codes
of `rknn_set_io_mem` are numbered in the order of the calls, the input first. -/
structure Rknn where
  init : ℤ
  ctx : ℕ
  ctx_ne : ctx ≠ 0
  queryNum : ℤ
  nInput : ℕ
  nOutput : ℕ
  queryInput : ℕ → ℤ × TensorAttr
  queryOutput : ℕ → ℤ × TensorAttr
  createMem : ℕ → Option ℕ
  setIoMem : ℕ → ℤ

/-! ## The code -/

/-- `rknn_app_context_t`; null pointers are `none`. -/
structure RknnAppContext where
  rknnCtx : ℕ
  nInput : ℕ
  nOutput : ℕ
  inputAttrs : Option (List TensorAttr)
  outputAttrs : Option (List TensorAttr)
  inputMems : Vector (Option ℕ) 2
  outputMems : Vector (Option ℕ) 3
  modelChannel : ℤ
  modelWidth : ℤ
  modelHeight : ℤ
  isQuant : Bool

/-- The context after `memset(&rknn_app_ctx, 0, sizeof(rknn_app_context_t))`. -/
def RknnAppContext.zero : RknnAppContext where
  rknnCtx := 0
  nInput := 0
  nOutput := 0
  inputAttrs := none
  outputAttrs := none
  inputMems := #v[none, none]
  outputMems := #v[none, none, none]
  modelChannel := 0
  modelWidth := 0
  modelHeight := 0
  isQuant := false

structure State where
  appCtx : RknnAppContext
  trace : List (HandleCall ℕ ℕ)

/-- A loop of queries; `none` where one fails and the function returns. -/
def queryAttrs (query : ℕ → ℤ × TensorAttr) (n : ℕ) : Option (List TensorAttr) :=
  (List.range n).mapM fun i => if (query i).1 ≠ rknnSucc then none else some (query i).2

def Rknn.created (lib : Rknn) (k : ℕ) : List (HandleCall ℕ ℕ) :=
  match lib.createMem k with
  | some m => [create lib.ctx m]
  | none => []

def setInput (lib : Rknn) (s : State) : Round State State :=
  let s : State :=
    { appCtx :=
        { s.appCtx with
          inputMems := s.appCtx.inputMems.set 0 (lib.createMem 0) Nat.zero_lt_two }
      trace := s.trace ++ lib.created 0 }
  if lib.setIoMem 0 < 0 then .ret s else .next s

/-- The body of the loop over the outputs. -/
def setOutput (lib : Rknn) (s : State) (i : ℕ) : Option (Round State State) :=
  if h : i < 3 then
    let s : State :=
      { appCtx := { s.appCtx with outputMems := s.appCtx.outputMems.set i (lib.createMem (i + 1)) }
        trace := s.trace ++ lib.created (i + 1) }
    some (if lib.setIoMem (i + 1) < 0 then .ret s else .next s)
  else none

/-- The stores at the end; the format has been set to NHWC. -/
def storeModel (lib : Rknn) (s : State) (input output : TensorAttr)
    (inputAttrs outputAttrs : List TensorAttr) : State :=
  let appCtx :=
    { s.appCtx with
      rknnCtx := lib.ctx
      isQuant := decide (output.qntType = QntType.affineAsymmetric)
      nInput := lib.nInput
      nOutput := lib.nOutput
      inputAttrs := some inputAttrs
      outputAttrs := some outputAttrs }
  { s with
    appCtx :=
      if input.fmt = .nchw then
        { appCtx with
          modelChannel := input.dims[1]
          modelHeight := input.dims[2]
          modelWidth := input.dims[3] }
      else
        { appCtx with
          modelHeight := input.dims[1]
          modelWidth := input.dims[2]
          modelChannel := input.dims[3] } }

/-- `init_yolov5_model`; `none` stands for an access out of range. -/
def initYolov5Model (lib : Rknn) (appCtx : RknnAppContext) : Option (ℤ × State) :=
  if lib.init < 0 then some (-1, ⟨appCtx, []⟩)
  else
    let s : State := ⟨appCtx, [openOwner lib.ctx]⟩
    if lib.queryNum ≠ rknnSucc then some (-1, s)
    else
      match queryAttrs lib.queryInput lib.nInput, queryAttrs lib.queryOutput lib.nOutput with
      | none, _ => some (-1, s)
      | some _, none => some (-1, s)
      | some inputAttrs, some outputAttrs => do
          let input ← inputAttrs[0]?
          let input := { input with type := .uint8, fmt := .nhwc }
          match setInput lib s with
          | .ret s => some (-1, s)
          | .next s => do
              match ← loopRounds (setOutput lib) (List.range lib.nOutput) s with
              | .ret s => some (-1, s)
              | .next s => do
                  let output ← outputAttrs[0]?
                  some (0, storeModel lib s input output (inputAttrs.set 0 input) outputAttrs)

/-- The body of the two last loops of `release_yolov5_model`. -/
def releaseMem (mems : List (Option ℕ)) (s : State) (i : ℕ) : Option State := do
  match ← mems[i]? with
  | some m => some { s with trace := s.trace ++ [destroy s.appCtx.rknnCtx m, free m] }
  | none => some s

def releaseYolov5Model (s : State) : Option State := do
  let s : State :=
    if s.appCtx.rknnCtx ≠ 0 then
      { appCtx := { s.appCtx with rknnCtx := 0 }
        trace := s.trace ++ [closeOwner s.appCtx.rknnCtx] }
    else s
  let s := { s with appCtx := { s.appCtx with inputAttrs := none, outputAttrs := none } }
  let s ← (List.range s.appCtx.nInput).foldlM (releaseMem s.appCtx.inputMems.toList) s
  (List.range s.appCtx.nOutput).foldlM (releaseMem s.appCtx.outputMems.toList) s

def releaseTimes : ℕ → State → Option State
  | 0, s => some s
  | n + 1, s => do
      let s ← releaseYolov5Model s
      releaseTimes n s

end CatDect.Yolov5
