import CatDect.Postprocess.Decode
import CatDect.Yolov5.Release

/-!
# The tables of the tensors

`init_yolov5_model` fills `output_mems` for as many outputs as the model has,
`release_yolov5_model` goes through `input_mems` and `output_mems` by the numbers of the
model, and `post_process` always reads three outputs.  Only models with three outputs and
at most two inputs keep all three within the tables.
-/

namespace CatDect.Yolov5

open CatDect.Support

/-! ## The accesses of `post_process` -/

def branchTables (appCtx : RknnAppContext) (i : ℕ) : Option (TensorAttr × Option (Option ℕ)) := do
  let outputAttrs ← appCtx.outputAttrs
  let attr ← outputAttrs[i]?
  if appCtx.isQuant then do
    let mem ← appCtx.outputMems.toList[i]?
    some (attr, some mem)
  else some (attr, none)

def PostProcessInRange (appCtx : RknnAppContext) : Prop :=
  ∀ i < 3, (branchTables appCtx i).isSome

def RknnAppContext.toPostProcess (appCtx : RknnAppContext) (outputAttrs : List TensorAttr) :
    Postprocess.AppContext where
  outputAttrs := outputAttrs.map fun attr => ⟨attr.dims.toList, attr.zp, attr.scale⟩
  modelWidth := appCtx.modelWidth
  modelHeight := appCtx.modelHeight
  isQuant := appCtx.isQuant

/-- The tables stay in range: no access of the three functions is out of range, or
`init_yolov5_model` has returned -1. -/
def TablesInRange (lib : Rknn) : Prop :=
  match initYolov5Model lib .zero with
  | none => False
  | some (ret, s) => ret = -1 ∨ PostProcessInRange s.appCtx ∧ releaseYolov5Model s ≠ none

section PostProcess

variable {appCtx : RknnAppContext} {outputAttrs : List TensorAttr}

theorem postProcessInRange_iff (h : appCtx.outputAttrs = some outputAttrs) :
    PostProcessInRange appCtx ↔ 3 ≤ outputAttrs.length := by
  have hmem : ∀ i < 3, ∃ mem, appCtx.outputMems.toList[i]? = some mem := by
    intro i hi
    exact ⟨_, List.getElem?_eq_getElem (by simpa using hi)⟩
  have hbranch : ∀ i < 3, (branchTables appCtx i).isSome ↔ i < outputAttrs.length := by
    intro i hi
    obtain ⟨mem, hread⟩ := hmem i hi
    unfold branchTables
    rw [h, hread, Option.bind_eq_bind, Option.bind_some]
    by_cases hlt : i < outputAttrs.length
    · rw [List.getElem?_eq_getElem hlt]
      cases appCtx.isQuant with
      | true => exact iff_of_true rfl hlt
      | false => exact iff_of_true rfl hlt
    · rw [List.getElem?_eq_none (by omega)]
      exact iff_of_false Bool.false_ne_true hlt
  constructor
  · intro hall
    exact (hbranch 2 (by omega)).mp (hall 2 (by omega))
  · intro hlength i hi
    exact (hbranch i hi).mpr (by omega)

theorem postProcessInRange_of_some (h : appCtx.outputAttrs = some outputAttrs)
    {outputs : List (List ℤ)} {confThreshold nmsThreshold : ℚ}
    {results : Postprocess.ObjectDetectResultList}
    (hrun : Postprocess.postProcess (appCtx.toPostProcess outputAttrs) outputs confThreshold
      nmsThreshold = some results) : PostProcessInRange appCtx := by
  apply (postProcessInRange_iff h).mpr
  obtain ⟨d, hd, -⟩ := Option.bind_eq_some_iff.mp hrun
  obtain ⟨d₂, -, hlast⟩ := foldlM_append_some (l := [0, 1]) hd
  rw [List.foldlM_cons] at hlast
  obtain ⟨d₃, hround, -⟩ := Option.bind_eq_some_iff.mp hlast
  obtain ⟨attr, hattr, -⟩ := Option.bind_eq_some_iff.mp hround
  have hlt := (List.getElem?_eq_some_iff.mp hattr).1
  unfold RknnAppContext.toPostProcess at hlt
  rwa [List.length_map] at hlt

end PostProcess

/-! ## The accesses of `release_yolov5_model` -/

theorem releaseMems_none {mems : List (Option ℕ)} {n : ℕ} (h : mems.length < n) (s : State) :
    (List.range n).foldlM (releaseMem mems) s = none := by
  obtain ⟨last, rfl⟩ := Nat.exists_eq_add_of_lt h
  have hread : mems[mems.length + last]? = none := List.getElem?_eq_none (by omega)
  rw [List.range_succ, List.foldlM_append]
  cases (List.range (mems.length + last)).foldlM (releaseMem mems) s with
  | none => rfl
  | some s' =>
      rw [Option.bind_eq_bind, Option.bind_some, List.foldlM_cons]
      unfold releaseMem
      rw [hread]
      rfl

theorem releaseYolov5Model_ne_none_iff {s : State} (hout : s.appCtx.nOutput ≤ 3) :
    releaseYolov5Model s ≠ none ↔ s.appCtx.nInput ≤ 2 := by
  constructor
  · intro h
    by_contra hin
    apply h
    have hmems : s.appCtx.inputMems.toList.length < s.appCtx.nInput := by
      rw [Vector.length_toList]
      omega
    unfold releaseYolov5Model
    by_cases hctx : s.appCtx.rknnCtx ≠ 0
    · simp only [if_pos hctx, releaseMems_none hmems]
      rfl
    · simp only [if_neg hctx, releaseMems_none hmems]
      rfl
  · intro hin
    rw [releaseYolov5Model_eq hin hout]
    exact Option.some_ne_none _

/-! ## The accesses of `init_yolov5_model` -/

section Init

variable {lib : Rknn}

/-- One of the calls of `rknn_set_io_mem` for the outputs `start .. start + count` fails, as
long as these have an entry in `output_mems`. -/
def Rknn.OutputRefused (lib : Rknn) (start count : ℕ) : Prop :=
  ∃ k, start ≤ k ∧ k < start + count ∧ k < 3 ∧ lib.setIoMem (k + 1) < 0

/-- `init_yolov5_model` is told of a failure, and returns -1. -/
def Rknn.Refused (lib : Rknn) : Prop :=
  lib.init < 0 ∨ lib.queryNum ≠ rknnSucc ∨
    (∃ i < lib.nInput, (lib.queryInput i).1 ≠ rknnSucc) ∨
    (∃ i < lib.nOutput, (lib.queryOutput i).1 ≠ rknnSucc) ∨
    lib.setIoMem 0 < 0 ∨ lib.OutputRefused 0 lib.nOutput

theorem queryAttrs_cases (query : ℕ → ℤ × TensorAttr) (n : ℕ) :
    (∃ i < n, (query i).1 ≠ rknnSucc) ∧ queryAttrs query n = none ∨
      (¬ ∃ i < n, (query i).1 ≠ rknnSucc) ∧
        ∃ attrs, queryAttrs query n = some attrs ∧ attrs.length = n := by
  have hround : ∀ i, (if (query i).1 ≠ rknnSucc then none else some (query i).2) = none ↔
      (query i).1 ≠ rknnSucc := by
    intro i
    by_cases hfail : (query i).1 ≠ rknnSucc
    · rw [if_pos hfail]
      exact iff_of_true rfl hfail
    · rw [if_neg hfail]
      exact iff_of_false (Option.some_ne_none _) hfail
  have hcases := mapM_cases
    (fun i => if (query i).1 ≠ rknnSucc then none else some (query i).2) (List.range n)
  simp only [hround, List.mem_range, List.length_range] at hcases
  exact hcases

theorem setOutputs_cases (lib : Rknn) {start : ℕ} (hstart : start ≤ 3) (count : ℕ) (s : State) :
    (lib.OutputRefused start count ∧
        ∃ s', loopRounds (setOutput lib) (List.range' start count) s = some (.ret s')) ∨
      (¬ lib.OutputRefused start count ∧ start + count ≤ 3 ∧
        ∃ s', loopRounds (setOutput lib) (List.range' start count) s = some (.next s')) ∨
      (¬ lib.OutputRefused start count ∧ 3 < start + count ∧
        loopRounds (setOutput lib) (List.range' start count) s = none) := by
  induction count generalizing start s with
  | zero =>
      right; left
      refine ⟨?_, hstart, s, rfl⟩
      rintro ⟨k, hle, hlt, -⟩
      omega
  | succ count ih =>
      rw [List.range'_succ, loopRounds]
      unfold setOutput
      by_cases hlt : start < 3
      · rw [dif_pos hlt, Option.bind_eq_bind, Option.bind_some]
        by_cases hset : lib.setIoMem (start + 1) < 0
        · left
          rw [if_pos hset]
          exact ⟨⟨start, le_rfl, by omega, hlt, hset⟩, _, rfl⟩
        · have hnext : lib.OutputRefused start (count + 1) ↔
              lib.OutputRefused (start + 1) count := by
            constructor
            · rintro ⟨k, hle, hk, hk3, hfail⟩
              have hne : k ≠ start := fun heq => hset (heq ▸ hfail)
              exact ⟨k, by omega, by omega, hk3, hfail⟩
            · rintro ⟨k, hle, hk, hk3, hfail⟩
              exact ⟨k, by omega, by omega, hk3, hfail⟩
          have hsize : start + 1 + count = start + (count + 1) := by omega
          rw [if_neg hset, hnext, ← hsize]
          exact ih hlt _
      · right; right
        rw [dif_neg hlt]
        refine ⟨?_, by omega, rfl⟩
        rintro ⟨k, hle, -, hk3, -⟩
        omega

/-- The ways `init_yolov5_model` can end for a model with inputs and outputs. -/
theorem initYolov5Model_outcome (hin : 1 ≤ lib.nInput) (hout : 1 ≤ lib.nOutput) :
    (lib.Refused ∧ ∃ s, initYolov5Model lib .zero = some (-1, s)) ∨
      (¬ lib.Refused ∧ 3 < lib.nOutput ∧ initYolov5Model lib .zero = none) ∨
      (¬ lib.Refused ∧ lib.nOutput ≤ 3 ∧ ∃ s₀ input output inputAttrs outputAttrs,
        initYolov5Model lib .zero =
          some (0, storeModel lib s₀ input output inputAttrs outputAttrs) ∧
        outputAttrs.length = lib.nOutput) := by
  unfold initYolov5Model Rknn.Refused
  by_cases hinit : lib.init < 0
  · left
    rw [if_pos hinit]
    exact ⟨.inl hinit, _, rfl⟩
  by_cases hnum : lib.queryNum ≠ rknnSucc
  · left
    rw [if_neg hinit, if_pos hnum]
    exact ⟨.inr (.inl hnum), _, rfl⟩
  rw [if_neg hinit, if_neg hnum, or_iff_right hinit, or_iff_right hnum]
  rcases queryAttrs_cases lib.queryInput lib.nInput with ⟨hfail, hnone⟩ |
    ⟨hinputs, inputAttrs, hinputAttrs, hinputLength⟩
  · left
    rw [hnone]
    exact ⟨.inl hfail, _, rfl⟩
  rcases queryAttrs_cases lib.queryOutput lib.nOutput with ⟨hfail, hnone⟩ |
    ⟨houtputs, outputAttrs, houtputAttrs, houtputLength⟩
  · left
    rw [hinputAttrs, hnone]
    exact ⟨.inr (.inl hfail), _, rfl⟩
  -- all queries succeed, and the first input and output exist
  have hinput : inputAttrs[0]? = some inputAttrs[0] := List.getElem?_eq_getElem (by omega)
  have houtput : outputAttrs[0]? = some outputAttrs[0] := List.getElem?_eq_getElem (by omega)
  rw [hinputAttrs, houtputAttrs, or_iff_right hinputs, or_iff_right houtputs]
  simp only [hinput, Option.bind_eq_bind, Option.bind_some, setInput]
  by_cases hset : lib.setIoMem 0 < 0
  · left
    rw [if_pos hset]
    exact ⟨.inl hset, _, rfl⟩
  -- only the loop over the outputs can leave a table
  rw [if_neg hset, or_iff_right hset, List.range_eq_range']
  rcases setOutputs_cases lib (Nat.zero_le 3) lib.nOutput _ with ⟨hfail, s, hrun⟩ |
    ⟨hset, hle, s, hrun⟩ | ⟨hset, hlt, hrun⟩
  · left
    dsimp only
    rw [hrun]
    exact ⟨hfail, _, rfl⟩
  · right; right
    dsimp only
    rw [hrun, Option.bind_some]
    dsimp only
    rw [houtput, Option.bind_some]
    exact ⟨hset, by omega, s, _, _, _, _, rfl, houtputLength⟩
  · right; left
    dsimp only
    rw [hrun]
    exact ⟨hset, by omega, rfl⟩

theorem storeModel_outputAttrs (lib : Rknn) (s₀ : State) (input output : TensorAttr)
    (inputAttrs outputAttrs : List TensorAttr) :
    (storeModel lib s₀ input output inputAttrs outputAttrs).appCtx.outputAttrs =
      some outputAttrs := by
  unfold storeModel
  dsimp only
  split_ifs
  · rfl
  · rfl

/-- The tables stay in range exactly if `init_yolov5_model` is told of a failure before it
leaves them, or the model has at most two inputs and three outputs. -/
theorem tablesInRange_iff (hin : 1 ≤ lib.nInput) (hout : 1 ≤ lib.nOutput) :
    TablesInRange lib ↔ lib.Refused ∨ lib.nInput ≤ 2 ∧ lib.nOutput = 3 := by
  unfold TablesInRange
  rcases initYolov5Model_outcome hin hout with ⟨hrefused, s, hinit⟩ | ⟨hrefused, hlt, hinit⟩ |
    ⟨hrefused, hle, s₀, input, output, inputAttrs, outputAttrs, hinit, hlength⟩
  · rw [hinit]
    exact iff_of_true (.inl rfl) (.inl hrefused)
  · rw [hinit, or_iff_right hrefused]
    exact iff_of_false id fun h => absurd h.2 (by omega)
  · obtain ⟨-, -, hnin, hnout, -⟩ :=
      storeModel_release lib s₀ input output inputAttrs outputAttrs
    have hstored := storeModel_outputAttrs lib s₀ input output inputAttrs outputAttrs
    have hret : ¬ (0 : ℤ) = -1 := by decide
    rw [hinit, or_iff_right hrefused]
    dsimp only
    rw [or_iff_right hret, postProcessInRange_iff hstored,
      releaseYolov5Model_ne_none_iff (hnout ▸ hle), hnin, hlength]
    omega

theorem tablesInRange_iff_goodLibrary :
    (1 ≤ goodLibrary.nInput ∧ 1 ≤ goodLibrary.nOutput) ∧
      (TablesInRange goodLibrary ↔
        goodLibrary.Refused ∨ goodLibrary.nInput ≤ 2 ∧ goodLibrary.nOutput = 3) :=
  ⟨⟨by decide, by decide⟩, tablesInRange_iff (by decide) (by decide)⟩

/-- With one output, `post_process` reads past the attributes; with four,
`init_yolov5_model` stores past the memories; with three inputs, `release_yolov5_model`
reads past them. -/
theorem tables_outOfRange :
    ¬ TablesInRange { goodLibrary with nOutput := 1 } ∧
      ¬ TablesInRange { goodLibrary with nOutput := 4 } ∧
      ¬ TablesInRange { goodLibrary with nInput := 3 } := by
  refine ⟨?_, id, ?_⟩
  · rintro (hret | ⟨hbranches, -⟩)
    · exact absurd hret (by decide)
    · exact Bool.false_ne_true (hbranches 1 (by decide))
  · rintro (hret | ⟨-, hrelease⟩)
    · exact absurd hret (by decide)
    · exact hrelease rfl

end Init

end CatDect.Yolov5
