import CatDect.Postprocess.Select

/-!
# The index array between the sort and the result list

After the sort the array is a permutation of the candidate indices; the passes of `nms`
overwrite entries with `-1` while they hold a copy of one, and the emission loop follows the
entries into three vectors.  Here passes and emission are one sequence of small steps, each
one round of an inner loop, so that something can be said of the array after every one.
-/

namespace CatDect.Postprocess

open CatDect.Support

/-! ## Step by step -/

inductive SelectStep where
  | visit (c : ℤ) (i : ℕ)
  | strike (c : ℤ) (i j : ℕ)
  | emit (i : ℕ)
deriving DecidableEq

/-- `visiting` is the copy `n` of `order[i]`, if the inner loop is entered at all. -/
structure SelectState where
  indexArray : List ℤ
  visiting : Option ℤ
  emission : Emission

section Steps

variable (d : Candidates) (nmsThreshold : ℚ) (modelInW modelInH : ℤ) (objProbs : List ℚ)

def selectStep (st : SelectState) : SelectStep → Option SelectState
  | .visit c i => do
      let n ← readAt st.indexArray i
      let cls ← readAt d.classId i
      some { st with visiting := if n = -1 ∨ cls ≠ c then none else some n }
  | .strike c i j =>
      match st.visiting with
      | none => some st
      | some n => do
          let order ← nmsStrike d.filterBoxes d.classId c nmsThreshold i n st.indexArray j
          some { st with indexArray := order }
  | .emit i => do
      let emission ← emitEntry d modelInW modelInH objProbs st.indexArray st.emission i
      some { st with emission := emission }

def selectRun (indexArray : List ℤ) (steps : List SelectStep) : Option SelectState :=
  steps.foldlM (selectStep d nmsThreshold modelInW modelInH objProbs)
    ⟨indexArray, none, .start⟩

/-- One round of the outer loop of `nms`. -/
def visitSteps (validCount : ℕ) (c : ℤ) (i : ℕ) : List SelectStep :=
  .visit c i :: (List.range' (i + 1) (validCount - (i + 1))).map (.strike c i)

def selectSteps : List SelectStep :=
  (classSet d.classId).flatMap
      (fun c => (List.range' 0 d.validCount).flatMap (visitSteps d.validCount c)) ++
    (List.range' 0 d.validCount).map .emit

end Steps

/-! ## The steps are the loops -/

section Loops

variable {d : Candidates} {nmsThreshold : ℚ} {modelInW modelInH : ℤ} {objProbs : List ℚ}

def Holds (emission : Emission) (order : List ℤ) (st : SelectState) : Prop :=
  st.indexArray = order ∧ st.emission = emission

theorem strikes_skip {c : ℤ} {i : ℕ} {st : SelectState} (hskip : st.visiting = none)
    (js : List ℕ) :
    (js.map (.strike c i)).foldlM
      (selectStep d nmsThreshold modelInW modelInH objProbs) st = some st := by
  induction js with
  | nil => rfl
  | cons j js ih =>
      rw [List.map_cons, List.foldlM_cons]
      simp only [selectStep, hskip, Option.bind_eq_bind, Option.bind_some]
      exact ih

theorem visitSteps_of_nmsVisit {c : ℤ} {i : ℕ} {order order' : List ℤ} {st : SelectState}
    {emission : Emission}
    (hvisit : nmsVisit d.validCount d.filterBoxes d.classId c nmsThreshold order i = some order')
    (hst : Holds emission order st) :
    ∃ st', (visitSteps d.validCount c i).foldlM
        (selectStep d nmsThreshold modelInW modelInH objProbs) st = some st' ∧
      Holds emission order' st' := by
  obtain ⟨n, hn, hvisit⟩ := Option.bind_eq_some_iff.mp hvisit
  obtain ⟨cls, hcls, hvisit⟩ := Option.bind_eq_some_iff.mp hvisit
  obtain ⟨rfl, rfl⟩ := hst
  rw [visitSteps, List.foldlM_cons]
  simp only [selectStep, hn, hcls, Option.bind_eq_bind, Option.bind_some]
  by_cases hskip : n = -1 ∨ cls ≠ c
  · rw [if_pos hskip] at hvisit
    rw [if_pos hskip]
    exact ⟨_, strikes_skip rfl _, Option.some.inj hvisit, rfl⟩
  · rw [if_neg hskip] at hvisit
    rw [if_neg hskip, List.foldlM_map]
    obtain ⟨st', hst', harray, hvisiting, hemission⟩ := foldlM_simulates
      (g := fun st j => selectStep d nmsThreshold modelInW modelInH objProbs st (.strike c i j))
      (fun order st' => st'.indexArray = order ∧ st'.visiting = some n ∧
        st'.emission = st.emission)
      (by
        rintro order j order' st' hstrike ⟨rfl, hvisiting, hemission⟩
        refine ⟨{ st' with indexArray := order' }, ?_, rfl, hvisiting, hemission⟩
        simp only [selectStep, hvisiting, hstrike, Option.bind_eq_bind, Option.bind_some])
      hvisit (b := { st with visiting := some n }) ⟨rfl, rfl, rfl⟩
    exact ⟨st', hst', harray, hemission⟩

theorem selectSteps_of_suppress {indexArray indexArray' : List ℤ} {emission emission' : Emission}
    (st : SelectState) (hsuppress : suppress d nmsThreshold indexArray = some indexArray')
    (hemit : (List.range' 0 d.validCount).foldlM
      (emitEntry d modelInW modelInH objProbs indexArray') emission = some emission')
    (hst : Holds emission indexArray st) :
    ∃ st', (selectSteps d).foldlM
        (selectStep d nmsThreshold modelInW modelInH objProbs) st = some st' ∧
      st'.emission = emission' := by
  obtain ⟨st₁, hpasses, harray, hemission⟩ := foldlM_simulates
    (g := fun st c => ((List.range' 0 d.validCount).flatMap (visitSteps d.validCount c)).foldlM
      (selectStep d nmsThreshold modelInW modelInH objProbs) st)
    (Holds emission)
    (by
      intro order c order' st hnms hst
      rw [foldlM_flatMap]
      exact foldlM_simulates
        (f := nmsVisit d.validCount d.filterBoxes d.classId c nmsThreshold) (Holds emission)
        (fun order i order' st hvisit hst => visitSteps_of_nmsVisit hvisit hst) hnms hst)
    hsuppress hst
  obtain ⟨st₂, hemits, -, hlast⟩ := foldlM_simulates
    (g := fun st i => selectStep d nmsThreshold modelInW modelInH objProbs st (.emit i))
    (fun emission st => st.indexArray = indexArray' ∧ st.emission = emission)
    (by
      rintro emission i emission' st hentry ⟨harray, rfl⟩
      refine ⟨{ st with emission := emission' }, ?_, harray, rfl⟩
      simp only [selectStep, harray, hentry, Option.bind_eq_bind, Option.bind_some])
    hemit (b := st₁) ⟨harray, hemission⟩
  refine ⟨st₂, ?_, hlast⟩
  rw [selectSteps, List.foldlM_append, foldlM_flatMap, hpasses, Option.bind_eq_bind,
    Option.bind_some, List.foldlM_map, hemits]

end Loops

/-! ## What every step preserves -/

/-- Every entry is `-1` or a candidate index, and no candidate index occurs twice. -/
structure IndexSafe (d : Candidates) (indexArray : List ℤ) : Prop where
  length_eq : indexArray.length = d.validCount
  range : ∀ (k : ℕ) (n : ℤ), indexArray[k]? = some n → n = -1 ∨ 0 ≤ n ∧ n < d.validCount
  distinct : ∀ (k l : ℕ) (n : ℤ), indexArray[k]? = some n → indexArray[l]? = some n →
    n ≠ -1 → k = l

section IndexSafe

variable {d : Candidates} {nmsThreshold : ℚ} {modelInW modelInH : ℤ} {objProbs : List ℚ}

theorem Ranking.indexSafe {indexArray : List ℤ} {rank : ℕ → ℕ}
    (h : Ranking d objProbs indexArray rank) : IndexSafe d indexArray := by
  have hlength := h.indexArray_marks.length_eq
  have hentry : ∀ (k : ℕ) (n : ℤ), indexArray[k]? = some n → k < d.validCount ∧ n = rank k := by
    intro k n hn
    have hk : k < d.validCount := hlength ▸ (List.getElem?_eq_some_iff.mp hn).1
    have hrank := h.indexArray_marks.of_alive k hk trivial
    exact ⟨hk, Option.some.inj (hn.symm.trans hrank)⟩
  refine ⟨hlength, ?_, ?_⟩
  · intro k n hn
    obtain ⟨hk, rfl⟩ := hentry k n hn
    have hlt := h.rank_lt k hk
    omega
  · intro k l n hk hl _
    obtain ⟨hkn, hrank⟩ := hentry k n hk
    obtain ⟨hln, hrank'⟩ := hentry l n hl
    exact h.rank_inj k hkn l hln (by omega)

theorem nmsStrike_cases {outputLocations : List ℚ} {classIds order order' : List ℤ}
    {filterId n : ℤ} {i j : ℕ}
    (h : nmsStrike outputLocations classIds filterId nmsThreshold i n order j = some order') :
    order' = order ∨ order' = order.set j (-1) := by
  obtain ⟨m, hm, h⟩ := Option.bind_eq_some_iff.mp h
  obtain ⟨c, -, h⟩ := Option.bind_eq_some_iff.mp h
  split at h
  · exact .inl (Option.some.inj h).symm
  · obtain ⟨iou, -, h⟩ := Option.bind_eq_some_iff.mp h
    split at h
    · rw [readAt_natCast] at hm
      have hj : j < order.length := (List.getElem?_eq_some_iff.mp hm).1
      rw [writeAt_natCast hj] at h
      exact .inr (Option.some.inj h).symm
    · exact .inl (Option.some.inj h).symm

theorem selectStep_indexArray {st st' : SelectState} {step : SelectStep}
    (h : selectStep d nmsThreshold modelInW modelInH objProbs st step = some st') :
    st'.indexArray = st.indexArray ∨ ∃ j, st'.indexArray = st.indexArray.set j (-1) := by
  cases step with
  | visit c i =>
      obtain ⟨n, -, h⟩ := Option.bind_eq_some_iff.mp h
      obtain ⟨cls, -, h⟩ := Option.bind_eq_some_iff.mp h
      rw [← Option.some.inj h]
      exact .inl rfl
  | strike c i j =>
      rw [selectStep] at h
      cases hvisiting : st.visiting with
      | none =>
          rw [hvisiting] at h
          rw [← Option.some.inj h]
          exact .inl rfl
      | some n =>
          rw [hvisiting] at h
          obtain ⟨order, hstrike, h⟩ := Option.bind_eq_some_iff.mp h
          rw [← Option.some.inj h]
          exact (nmsStrike_cases hstrike).imp id fun hset => ⟨j, hset⟩
  | emit i =>
      obtain ⟨emission, -, h⟩ := Option.bind_eq_some_iff.mp h
      rw [← Option.some.inj h]
      exact .inl rfl

theorem IndexSafe.set {indexArray : List ℤ} (h : IndexSafe d indexArray) (j : ℕ) :
    IndexSafe d (indexArray.set j (-1)) := by
  have hentry : ∀ (k : ℕ) (n : ℤ), (indexArray.set j (-1))[k]? = some n →
      n = -1 ∨ indexArray[k]? = some n := by
    intro k n hn
    rw [List.getElem?_set] at hn
    split at hn
    · split at hn
      · exact .inl (Option.some.inj hn).symm
      · exact absurd hn (by simp)
    · exact .inr hn
  refine ⟨?_, ?_, ?_⟩
  · rw [List.length_set]
    exact h.length_eq
  · intro k n hn
    rcases hentry k n hn with hmark | hold
    · exact .inl hmark
    · exact h.range k n hold
  · intro k l n hk hl hne
    rcases hentry k n hk with hmark | hold
    · exact absurd hmark hne
    · rcases hentry l n hl with hmark | hold'
      · exact absurd hmark hne
      · exact h.distinct k l n hold hold' hne

theorem IndexSafe.step {st st' : SelectState} {step : SelectStep}
    (hstep : selectStep d nmsThreshold modelInW modelInH objProbs st step = some st')
    (h : IndexSafe d st.indexArray) : IndexSafe d st'.indexArray := by
  rcases selectStep_indexArray hstep with hsame | ⟨j, hset⟩
  · rw [hsame]
    exact h
  · rw [hset]
    exact h.set j

theorem marked_step {st st' : SelectState} {step : SelectStep} {k : ℕ}
    (hstep : selectStep d nmsThreshold modelInW modelInH objProbs st step = some st')
    (h : st.indexArray[k]? = some (-1)) : st'.indexArray[k]? = some (-1) := by
  rcases selectStep_indexArray hstep with hsame | ⟨j, hset⟩
  · rw [hsame]
    exact h
  · have hk : k < st.indexArray.length := (List.getElem?_eq_some_iff.mp h).1
    rw [hset, List.getElem?_set]
    split
    · rename_i hjk
      rw [if_pos (hjk ▸ hk)]
    · exact h

end IndexSafe

/-! ## Whole runs -/

theorem selectRun_complete (d : Candidates) (nmsThreshold : ℚ) (modelInW modelInH : ℤ) :
    ∃ objProbs sorted st, sortCandidates d = some (objProbs, sorted) ∧ IndexSafe d sorted ∧
      selectRun d nmsThreshold modelInW modelInH objProbs sorted (selectSteps d) = some st ∧
      postProcessSelect d nmsThreshold modelInW modelInH = some st.emission.toResultList := by
  classical
  obtain ⟨objProbs, sorted, indexArray, r, hsort, hsuppress, -, hrank, hmarks, -⟩ :=
    postProcessSelect_spec d nmsThreshold modelInW modelInH
  obtain ⟨l, hemit, -⟩ := emit_spec modelInW modelInH hrank hmarks
  obtain ⟨emission, hfold, hlist⟩ := Option.bind_eq_some_iff.mp hemit
  obtain ⟨st, hrun, hemission⟩ := selectSteps_of_suppress ⟨sorted, none, .start⟩ hsuppress hfold
    ⟨rfl, rfl⟩
  refine ⟨objProbs, sorted, st, hsort, hrank.indexSafe, hrun, ?_⟩
  rw [hemission]
  by_cases hzero : d.validCount ≤ 0
  · have hn : d.validCount = 0 := Nat.le_zero.mp hzero
    rw [hn] at hfold
    have hempty : postProcessSelect d nmsThreshold modelInW modelInH = some .zero := if_pos hzero
    rw [hempty, ← Option.some.inj hfold]
    rfl
  · unfold postProcessSelect
    simp only [if_neg hzero, hsort, hsuppress, hemit, Option.bind_eq_bind, Option.bind_some]
    exact congrArg some (Option.some.inj hlist).symm

/-- **The index array is safe.**  After the sort no step of the passes and of the emission
loop makes an access out of range; after each of them every entry is `-1` or a candidate
index, the candidate indices are distinct, and what was `-1` before still is; and when all
are done the result list is that of `post_process`. -/
theorem select_indexSafe (d : Candidates) (nmsThreshold : ℚ) (modelInW modelInH : ℤ) :
    ∃ objProbs sorted, sortCandidates d = some (objProbs, sorted) ∧
      (∀ done rest, selectSteps d = done ++ rest →
        ∃ st, selectRun d nmsThreshold modelInW modelInH objProbs sorted done = some st ∧
          IndexSafe d st.indexArray ∧
          ∀ more later, rest = more ++ later →
            ∃ st', selectRun d nmsThreshold modelInW modelInH objProbs sorted (done ++ more) =
                some st' ∧
              ∀ k : ℕ, st.indexArray[k]? = some (-1) → st'.indexArray[k]? = some (-1)) ∧
      ∃ st, selectRun d nmsThreshold modelInW modelInH objProbs sorted (selectSteps d) = some st ∧
        postProcessSelect d nmsThreshold modelInW modelInH = some st.emission.toResultList := by
  obtain ⟨objProbs, sorted, st, hsort, hsafe, hrun, hlist⟩ :=
    selectRun_complete d nmsThreshold modelInW modelInH
  refine ⟨objProbs, sorted, hsort, ?_, st, hrun, hlist⟩
  intro done rest hsplit
  rw [hsplit] at hrun
  obtain ⟨st₁, hdone, hrest⟩ := foldlM_append_some hrun
  refine ⟨st₁, hdone, ?_, ?_⟩
  · exact foldlM_invariant (fun st => IndexSafe d st.indexArray) hdone hsafe
      fun st step st' hstep h => h.step hstep
  · intro more later hmore
    rw [hmore] at hrest
    obtain ⟨st₂, hmid, -⟩ := foldlM_append_some hrest
    refine ⟨st₂, ?_, ?_⟩
    · unfold selectRun
      rw [List.foldlM_append]
      exact Option.bind_eq_some_iff.mpr ⟨st₁, hdone, hmid⟩
    · intro k hk
      exact foldlM_invariant (fun st => st.indexArray[k]? = some (-1)) hmid hk
        fun st step st' hstep h => marked_step hstep h

end CatDect.Postprocess
