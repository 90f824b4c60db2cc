import CatDect.Postprocess.Nms
import CatDect.Postprocess.IndexSort
import CatDect.Support.FirstRanks
import Mathlib.Tactic.Ring

/-!
# From candidates to the result list

The second half of `post_process`: sort, suppression passes, emission.  The main
fact is `postProcessSelect_spec`: whatever the decoders found, the code makes no
undefined access and reports the first standing positions of the score order.
-/

namespace CatDect.Postprocess

open CatDect.Support

/-! ## The code -/

/-- `indexArray` filled with `0 .. validCount` and sorted along with `objProbs`. -/
def sortCandidates (d : Candidates) : Option (List ℚ × List ℤ) :=
  IndexSort.quickSortIndiceInverse (d.validCount + 1) d.objProbs 0 (d.validCount - 1)
    ((List.range d.validCount).map Nat.cast)

/-- `last_count` and the table of `od_results` while the emission loop runs. -/
structure Emission where
  lastCount : ℕ
  results : Vector ObjectDetectResult objNumbMaxSize
  lastCount_le : lastCount ≤ objNumbMaxSize

namespace Emission

def start : Emission := ⟨0, ObjectDetectResultList.zero.results, Nat.zero_le _⟩

/-- `od_results` with its count, which is stored after the loop. -/
def toResultList (st : Emission) : ObjectDetectResultList where
  id := 0
  count := st.lastCount
  results := st.results
  count_le := Int.ofNat_le.mpr st.lastCount_le

/-- The stores to `od_results->results[last_count]`, then `last_count++`. -/
def append (st : Emission) (r : ObjectDetectResult) (h : st.lastCount < objNumbMaxSize) :
    Emission :=
  ⟨st.lastCount + 1, st.results.set st.lastCount r h, h⟩

def entries (st : Emission) : List ObjectDetectResult := st.results.toList.take st.lastCount

theorem entries_length (st : Emission) : st.entries.length = st.lastCount := by
  unfold entries
  rw [List.length_take, Vector.length_toList]
  exact min_eq_left st.lastCount_le

@[simp] theorem append_lastCount (st : Emission) (r : ObjectDetectResult)
    (h : st.lastCount < objNumbMaxSize) : (st.append r h).lastCount = st.lastCount + 1 := rfl

@[simp] theorem append_results (st : Emission) (r : ObjectDetectResult)
    (h : st.lastCount < objNumbMaxSize) :
    (st.append r h).results.toList = st.results.toList.set st.lastCount r := by
  unfold append
  rw [Vector.toList_set]

theorem entries_append (st : Emission) (r : ObjectDetectResult)
    (h : st.lastCount < objNumbMaxSize) : (st.append r h).entries = st.entries ++ [r] := by
  have hlen : st.lastCount < (st.results.toList.set st.lastCount r).length := by
    rw [List.length_set, Vector.length_toList]
    exact h
  unfold entries
  rw [append_results, append_lastCount, List.take_succ_eq_append_getElem hlen,
    List.getElem_set_self, List.take_set_of_le le_rfl]

def RestCleared (st : Emission) : Prop :=
  st.results.toList.drop st.lastCount =
    List.replicate (objNumbMaxSize - st.lastCount) ObjectDetectResultList.zeroEntry

theorem RestCleared.append {st : Emission} (hst : st.RestCleared) (r : ObjectDetectResult)
    (h : st.lastCount < objNumbMaxSize) : (st.append r h).RestCleared := by
  unfold RestCleared
  rw [append_results, append_lastCount, List.drop_set_of_lt (Nat.lt_add_one _), ← List.drop_drop,
    hst, List.drop_replicate, Nat.sub_sub]

end Emission

def emitEntry (d : Candidates) (modelInW modelInH : ℤ) (objProbs : List ℚ)
    (indexArray : List ℤ) (st : Emission) (i : ℕ) : Option Emission := do
  let n ← readAt indexArray i
  if h : n = -1 ∨ objNumbMaxSize ≤ st.lastCount then some st
  else do
    let x1 ← readAt d.filterBoxes (n * 4 + 0)
    let y1 ← readAt d.filterBoxes (n * 4 + 1)
    let w ← readAt d.filterBoxes (n * 4 + 2)
    let height ← readAt d.filterBoxes (n * 4 + 3)
    let id ← readAt d.classId n
    let objConf ← readAt objProbs i
    some (st.append
      { box := { left := clamp x1 0 modelInW
                 top := clamp y1 0 modelInH
                 right := clamp (x1 + w) 0 modelInW
                 bottom := clamp (y1 + height) 0 modelInH }
        prop := objConf
        clsId := id } (by omega))

def emit (d : Candidates) (modelInW modelInH : ℤ) (objProbs : List ℚ) (indexArray : List ℤ) :
    Option ObjectDetectResultList := do
  let st ← (List.range' 0 d.validCount).foldlM
    (emitEntry d modelInW modelInH objProbs indexArray) .start
  some st.toResultList

/-- `post_process` after the decode calls. -/
def postProcessSelect (d : Candidates) (nmsThreshold : ℚ) (modelInW modelInH : ℤ) :
    Option ObjectDetectResultList :=
  if d.validCount ≤ 0 then some ObjectDetectResultList.zero
  else do
    let (objProbs, indexArray) ← sortCandidates d
    let indexArray ← suppress d nmsThreshold indexArray
    emit d modelInW modelInH objProbs indexArray

/-! ## What the sort leaves behind -/

/-- `objProbs` and `indexArray` after the sort rank the candidates: position `i` holds
candidate `rank i` and its score. -/
structure Ranking (d : Candidates) (objProbs : List ℚ) (indexArray : List ℤ)
    (rank : ℕ → ℕ) : Prop where
  rank_lt : ∀ i < d.validCount, rank i < d.validCount
  rank_inj : ∀ i < d.validCount, ∀ j < d.validCount, rank i = rank j → i = j
  objProbs_eq : ∀ i < d.validCount, objProbs[i]? = some (d.candidate (rank i)).score
  indexArray_marks : Marks d rank (fun _ => True) indexArray
  sorted : ∀ i j, i ≤ j → j < d.validCount →
    (d.candidate (rank j)).score ≤ (d.candidate (rank i)).score

def rankOf (indexArray : List ℤ) (i : ℕ) : ℕ := (indexArray.getD i 0).toNat

theorem sortCandidates_spec (d : Candidates) :
    ∃ objProbs indexArray, sortCandidates d = some (objProbs, indexArray) ∧
      Ranking d objProbs indexArray (rankOf indexArray) := by
  obtain ⟨objProbs, indexArray, hsort, hlen₁, hlen₂, ⟨σ, hσ, hcells⟩, hsorted⟩ :=
    @IndexSort.quickSortIndiceInverse_spec ℚ _ d.validCount (d.validCount + 1) d.objProbs
      ((List.range d.validCount).map Nat.cast) 0 (d.validCount - 1) d.objProbs_length (by simp)
      le_rfl (by omega) (by omega) (by omega)
  have hmem : ∀ i : ℕ, i < d.validCount → ∃ k : ℕ, σ i = k ∧ k < d.validCount := by
    intro i hi
    have hrange := RearrangedOn.perm_mem_range hσ (i := (i : ℤ)) (by omega)
    exact ⟨(σ i).toNat, by omega, by omega⟩
  -- the cells at position `i` are the cells the candidates had at `σ i`
  have hindex : ∀ i : ℕ, i < d.validCount → indexArray[i]? = some (σ i) := by
    intro i hi
    obtain ⟨k, hk, hlt⟩ := hmem i hi
    have hcell : readAt indexArray i = readAt ((List.range d.validCount).map Nat.cast) (σ i) :=
      congrArg Prod.snd (hcells i)
    rw [hk, readAt_natCast, readAt_natCast, List.getElem?_map, List.getElem?_range hlt] at hcell
    rw [hcell, hk]
    rfl
  have hrank : ∀ i : ℕ, i < d.validCount → (rankOf indexArray i : ℤ) = σ i := by
    intro i hi
    obtain ⟨k, hk, -⟩ := hmem i hi
    unfold rankOf
    rw [List.getD_eq_getElem?_getD, hindex i hi, Option.getD_some, hk]
    rfl
  have hlt : ∀ i < d.validCount, rankOf indexArray i < d.validCount := by
    intro i hi
    obtain ⟨k, hk, hkn⟩ := hmem i hi
    have := hrank i hi
    omega
  have hprobs : ∀ i < d.validCount,
      objProbs[i]? = some (d.candidate (rankOf indexArray i)).score := by
    intro i hi
    have hcell : readAt objProbs i = readAt d.objProbs (σ i) := congrArg Prod.fst (hcells i)
    rw [← hrank i hi, readAt_natCast, readAt_natCast] at hcell
    rw [hcell, Candidates.objProbs_getElem? (hlt i hi)]
  refine ⟨objProbs, indexArray, hsort, hlt, ?_, hprobs, ⟨hlen₂, ?_, fun _ _ h => absurd trivial h⟩,
    ?_⟩
  · intro i hi j hj heq
    have hσeq : σ i = σ j := by rw [← hrank i hi, ← hrank j hj, heq]
    exact_mod_cast σ.injective hσeq
  · intro i hi _
    rw [hindex i hi, hrank i hi]
  · intro i j hij hj
    apply hsorted i j _ _ (by omega) (by omega) (by omega)
    · rw [readAt_natCast]
      exact hprobs i (by omega)
    · rw [readAt_natCast]
      exact hprobs j hj

/-! ## What the emission reports -/

def Candidate.report (c : Candidate) (modelInW modelInH : ℤ) : ObjectDetectResult where
  box := { left := clamp c.x 0 modelInW
           top := clamp c.y 0 modelInH
           right := clamp (c.x + c.w) 0 modelInW
           bottom := clamp (c.y + c.h) 0 modelInH }
  prop := c.score
  clsId := c.cls

section Emit

variable {d : Candidates} {objProbs : List ℚ} {sorted indexArray : List ℤ} {rank : ℕ → ℕ}
  {alive : ℕ → Prop} [DecidablePred alive] {modelInW modelInH : ℤ}

theorem emitEntry_spec (hrank : Ranking d objProbs sorted rank)
    (hmarks : Marks d rank alive indexArray) {i : ℕ} (hi : i < d.validCount) {st : Emission}
    (hst : st.entries = (firstRanks alive i objNumbMaxSize).map
      fun k => (d.candidate (rank k)).report modelInW modelInH) (hrest : st.RestCleared) :
    ∃ st', emitEntry d modelInW modelInH objProbs indexArray st i = some st' ∧
      st'.entries = (firstRanks alive (i + 1) objNumbMaxSize).map
        (fun k => (d.candidate (rank k)).report modelInW modelInH) ∧
      st'.RestCleared := by
  have hcount : st.lastCount = min objNumbMaxSize (Nat.count alive i) := by
    rw [← st.entries_length, hst, List.length_map, firstRanks_length]
  by_cases halive : alive i
  · have hread : readAt indexArray i = some (rank i : ℤ) := by
      rw [readAt_natCast, hmarks.of_alive i hi halive]
    by_cases hfull : objNumbMaxSize ≤ st.lastCount
    · refine ⟨st, ?_, ?_, hrest⟩
      · unfold emitEntry
        simp only [hread, Option.bind_eq_bind, Option.bind_some]
        rw [dif_pos (.inr hfull)]
      · rw [hst, firstRanks_succ_of_full (by omega)]
    · have hne : ¬ ((rank i : ℤ) = -1 ∨ objNumbMaxSize ≤ st.lastCount) := by omega
      obtain ⟨h0, h1, h2, h3⟩ := Candidates.readAt_filterBoxes (hrank.rank_lt i hi)
      have hclass : readAt d.classId (rank i) = some (d.candidate (rank i)).cls := by
        rw [readAt_natCast, Candidates.classId_getElem? (hrank.rank_lt i hi)]
      have hprob : readAt objProbs i = some (d.candidate (rank i)).score := by
        rw [readAt_natCast, hrank.objProbs_eq i hi]
      refine ⟨st.append ((d.candidate (rank i)).report modelInW modelInH) (by omega), ?_, ?_,
        hrest.append _ _⟩
      · unfold emitEntry
        simp only [hread, dif_neg hne, h0, h1, h2, h3, hclass, hprob, Option.bind_eq_bind,
          Option.bind_some]
        rfl
      · rw [Emission.entries_append, hst, firstRanks_succ halive (by omega), List.map_append,
          List.map_singleton]
  · have hread : readAt indexArray i = some (-1) := by
      rw [readAt_natCast, hmarks.of_dead i hi halive]
    refine ⟨st, ?_, by rw [hst, firstRanks_succ_of_not halive], hrest⟩
    unfold emitEntry
    simp only [hread, Option.bind_eq_bind, Option.bind_some, true_or, dif_pos]

theorem emit_spec (modelInW modelInH : ℤ) (hrank : Ranking d objProbs sorted rank)
    (hmarks : Marks d rank alive indexArray) :
    ∃ r, emit d modelInW modelInH objProbs indexArray = some r ∧
      r.count = (firstRanks alive d.validCount objNumbMaxSize).length ∧
      r.reported = (firstRanks alive d.validCount objNumbMaxSize).map
        (fun k => (d.candidate (rank k)).report modelInW modelInH) ∧
      r.Fresh := by
  obtain ⟨st, hfold, hst, hrest⟩ := foldlM_range_rule 0 d.validCount
    (f := emitEntry d modelInW modelInH objProbs indexArray)
    (s := .start)
    (fun i st => st.entries = (firstRanks alive i objNumbMaxSize).map
        (fun k => (d.candidate (rank k)).report modelInW modelInH) ∧ st.RestCleared)
    ⟨rfl, ObjectDetectResultList.Fresh.zero.rest_eq⟩
    (fun i st _ hi hst => emitEntry_spec hrank hmarks (by omega) hst.1 hst.2)
  rw [Nat.zero_add] at hst
  have hlen : st.lastCount = (firstRanks alive d.validCount objNumbMaxSize).length := by
    rw [← st.entries_length, hst, List.length_map]
  refine ⟨st.toResultList, ?_, congrArg Nat.cast hlen, ?_, ⟨rfl, Int.natCast_nonneg _, hrest⟩⟩
  · unfold emit
    simp only [hfold, Option.bind_eq_bind, Option.bind_some]
  · rw [← hst]
    rfl

end Emit

open Classical in
/-- **The selection.**  `post_process` never accesses a vector out of range, and reports
the candidates at the first standing positions of the score order. -/
theorem postProcessSelect_spec (d : Candidates) (nmsThreshold : ℚ) (modelInW modelInH : ℤ) :
    ∃ objProbs sorted indexArray r, sortCandidates d = some (objProbs, sorted) ∧
      suppress d nmsThreshold sorted = some indexArray ∧
      postProcessSelect d nmsThreshold modelInW modelInH = some r ∧
      Ranking d objProbs sorted (rankOf sorted) ∧
      Marks d (rankOf sorted)
        (Standing (TurnBefore d) (Hits d nmsThreshold (rankOf sorted))) indexArray ∧
      r.count = (firstRanks (Standing (TurnBefore d) (Hits d nmsThreshold (rankOf sorted)))
        d.validCount objNumbMaxSize).length ∧
      r.reported = (firstRanks (Standing (TurnBefore d) (Hits d nmsThreshold (rankOf sorted)))
        d.validCount objNumbMaxSize).map
          (fun k => (d.candidate (rankOf sorted k)).report modelInW modelInH) ∧
      r.Fresh := by
  obtain ⟨objProbs, sorted, hsort, hrank⟩ := sortCandidates_spec d
  obtain ⟨indexArray, hsuppress, hmarks⟩ :=
    suppress_spec nmsThreshold hrank.rank_lt hrank.indexArray_marks
  refine ⟨objProbs, sorted, indexArray, ?_⟩
  by_cases hzero : d.validCount ≤ 0
  · have hn : d.validCount = 0 := by omega
    have hempty : postProcessSelect d nmsThreshold modelInW modelInH = some .zero := if_pos hzero
    refine ⟨.zero, hsort, hsuppress, hempty, hrank, hmarks, ?_, ?_, .zero⟩
    · rw [hn]
      rfl
    · rw [hn]
      rfl
  · obtain ⟨r, hemit, hcount, hreported, hfresh⟩ :=
      emit_spec modelInW modelInH hrank hmarks
    refine ⟨r, hsort, hsuppress, ?_, hrank, hmarks, hcount, hreported, hfresh⟩
    unfold postProcessSelect
    simp only [if_neg hzero, hsort, hsuppress, hemit, Option.bind_eq_bind, Option.bind_some]

end CatDect.Postprocess
