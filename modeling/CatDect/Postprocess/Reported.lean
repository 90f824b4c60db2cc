import CatDect.Postprocess.Select

/-!
# The reported list

Two facts about every run of `post_process` after the decode calls, for any number of
candidates and any threshold: the reported entries are the best survivors, each read
off one candidate, and no two survivors overlap above the threshold.
-/

namespace CatDect.Postprocess

open CatDect.Support

/-! ## The surviving entries of the index array -/

/-- The entries of `indexArray` that no pass has set to `-1`, in score order. -/
def survivors (indexArray : List ℤ) : List ℤ := indexArray.filter fun n => n ≠ -1

section Survivors

variable {d : Candidates} {objProbs : List ℚ} {sorted indexArray : List ℤ} {rank : ℕ → ℕ}
  {alive : ℕ → Prop} [DecidablePred alive]

theorem Marks.eq_map (h : Marks d rank alive indexArray) :
    indexArray = (List.range d.validCount).map
      fun i => if alive i then (rank i : ℤ) else -1 := by
  apply List.ext_getElem?
  intro i
  by_cases hi : i < d.validCount
  · rw [List.getElem?_map, List.getElem?_range hi, Option.map_some]
    by_cases ha : alive i
    · rw [h.of_alive i hi ha, if_pos ha]
    · rw [h.of_dead i hi ha, if_neg ha]
  · rw [List.getElem?_eq_none (by rw [h.length_eq]; omega),
      List.getElem?_eq_none (by rw [List.length_map, List.length_range]; omega)]

theorem Marks.survivors_eq (h : Marks d rank alive indexArray) :
    survivors indexArray =
      ((List.range d.validCount).filter fun i => alive i).map fun i => (rank i : ℤ) := by
  unfold survivors
  rw [h.eq_map]
  generalize List.range d.validCount = positions
  induction positions with
  | nil => rfl
  | cons i positions ih =>
      by_cases ha : alive i
      · have hne : ((rank i : ℤ) ≠ -1) := by omega
        simp [ha, hne, ← ih]
      · simp [ha, ← ih]

theorem Marks.take_survivors (h : Marks d rank alive indexArray) (cap : ℕ) :
    (survivors indexArray).take cap =
      (firstRanks alive d.validCount cap).map fun i => (rank i : ℤ) := by
  unfold firstRanks
  rw [h.survivors_eq, ← List.map_take]

theorem Marks.of_survivor (h : Marks d rank alive indexArray) {i : ℕ} {n : ℤ}
    (hn : indexArray[i]? = some n) (hne : n ≠ -1) :
    i < d.validCount ∧ alive i ∧ n = rank i := by
  have hi : i < d.validCount := by
    rw [← h.length_eq]
    exact (List.getElem?_eq_some_iff.mp hn).1
  by_cases ha : alive i
  · rw [h.of_alive i hi ha] at hn
    exact ⟨hi, ha, (Option.some.inj hn).symm⟩
  · rw [h.of_dead i hi ha] at hn
    exact absurd (Option.some.inj hn).symm hne

theorem Ranking.rank_nodup (h : Ranking d objProbs sorted rank) (positions : List ℕ)
    (hpos : positions.Sublist (List.range d.validCount)) :
    (positions.map fun i => (rank i : ℤ)).Nodup := by
  apply List.Nodup.map_on _ (List.nodup_range.sublist hpos)
  intro i hi j hj heq
  have hlt := fun k (hk : k ∈ positions) => List.mem_range.mp (hpos.subset hk)
  exact h.rank_inj i (hlt i hi) j (hlt j hj) (by exact_mod_cast heq)

theorem Ranking.scores_pairwise (h : Ranking d objProbs sorted rank) (positions : List ℕ)
    (hpos : positions.Sublist (List.range d.validCount)) :
    positions.Pairwise fun i j =>
      (d.candidate (rank j)).score ≤ (d.candidate (rank i)).score := by
  apply (List.pairwise_lt_range.sublist hpos).imp_of_mem
  intro i j _ hj hij
  exact h.sorted i j hij.le (List.mem_range.mp (hpos.subset hj))

end Survivors

/-! ## The best survivors are reported -/

/-- **The result list is the list of the best survivors.**  `survivors indexArray` are
indices of distinct candidates in non-increasing score order; the first 128 of them are
reported, each with the box, score and class of its own candidate. -/
theorem reported_eq_best_survivors (d : Candidates) (nmsThreshold : ℚ)
    (modelInW modelInH : ℤ) :
    ∃ objProbs sorted indexArray r, sortCandidates d = some (objProbs, sorted) ∧
      suppress d nmsThreshold sorted = some indexArray ∧
      postProcessSelect d nmsThreshold modelInW modelInH = some r ∧
      r.count = min (objNumbMaxSize : ℤ) (indexArray.countP fun n => n ≠ -1) ∧
      r.reported = ((survivors indexArray).take objNumbMaxSize).map
        (fun n => (d.candidate n.toNat).report modelInW modelInH) ∧
      (survivors indexArray).Nodup ∧
      (∀ n ∈ survivors indexArray, 0 ≤ n ∧ n < d.validCount) ∧
      (survivors indexArray).Pairwise fun m n =>
        (d.candidate n.toNat).score ≤ (d.candidate m.toNat).score := by
  classical
  obtain ⟨objProbs, sorted, indexArray, r, hsort, hsuppress, hselect, hrank, hmarks, hcount,
    hreported, -⟩ := postProcessSelect_spec d nmsThreshold modelInW modelInH
  have hpos := List.filter_sublist (p := fun i => decide
    (Standing (TurnBefore d) (Hits d nmsThreshold (rankOf sorted)) i))
    (l := List.range d.validCount)
  refine ⟨objProbs, sorted, indexArray, r, hsort, hsuppress, hselect, ?_, ?_, ?_, ?_, ?_⟩
  · have hlen : indexArray.countP (fun n => n ≠ -1) = Nat.count
        (Standing (TurnBefore d) (Hits d nmsThreshold (rankOf sorted))) d.validCount := by
      calc indexArray.countP (fun n => n ≠ -1)
          = (survivors indexArray).length := List.countP_eq_length_filter
        _ = Nat.count (Standing (TurnBefore d) (Hits d nmsThreshold (rankOf sorted)))
              d.validCount := by
            rw [hmarks.survivors_eq, List.length_map, filter_range_length]
    rw [hcount, firstRanks_length, hlen]
    exact Nat.cast_min _ _
  · rw [hreported, hmarks.take_survivors, List.map_map]
    rfl
  · rw [hmarks.survivors_eq]
    exact hrank.rank_nodup _ hpos
  · intro n hn
    rw [hmarks.survivors_eq, List.mem_map] at hn
    obtain ⟨i, hi, rfl⟩ := hn
    have hlt := hrank.rank_lt i (List.mem_range.mp (hpos.subset hi))
    omega
  · rw [hmarks.survivors_eq, List.pairwise_map]
    exact hrank.scores_pairwise _ hpos

/-! ## No two survivors overlap -/

/-- **Soundness of the suppression.**  Two surviving entries never overlap above the
threshold, hence no two reported entries of one class do, on their unclamped boxes. -/
theorem survivors_do_not_overlap (d : Candidates) (nmsThreshold : ℚ)
    (modelInW modelInH : ℤ) :
    ∃ objProbs sorted indexArray r, sortCandidates d = some (objProbs, sorted) ∧
      suppress d nmsThreshold sorted = some indexArray ∧
      postProcessSelect d nmsThreshold modelInW modelInH = some r ∧
      (∀ (i j : ℕ) (m n : ℤ), i ≠ j → indexArray[i]? = some m → indexArray[j]? = some n →
        m ≠ -1 → n ≠ -1 →
        (d.candidate m.toNat).cls = (d.candidate n.toNat).cls →
        (d.candidate m.toNat).overlap (d.candidate n.toNat) ≤ nmsThreshold) ∧
      ∃ boxes : List Candidate,
        r.reported = boxes.map (fun c => c.report modelInW modelInH) ∧
        ∀ (i j : ℕ) (a b : Candidate), i ≠ j → boxes[i]? = some a → boxes[j]? = some b →
          a.cls = b.cls → a.overlap b ≤ nmsThreshold := by
  classical
  obtain ⟨objProbs, sorted, indexArray, r, hsort, hsuppress, hselect, hrank, hmarks, hcount,
    hreported, -⟩ := postProcessSelect_spec d nmsThreshold modelInW modelInH
  -- the ranks decide which of the two boxes comes first; the overlap is symmetric
  have hkey : ∀ i j, i ≠ j →
      Standing (TurnBefore d) (Hits d nmsThreshold (rankOf sorted)) i →
      Standing (TurnBefore d) (Hits d nmsThreshold (rankOf sorted)) j →
      (d.candidate (rankOf sorted i)).overlap (d.candidate (rankOf sorted j)) ≤ nmsThreshold := by
    intro i j hij hi hj
    rcases Nat.lt_or_gt_of_ne hij with hlt | hgt
    · have hmiss : ¬ Hits d nmsThreshold (rankOf sorted) i j := Standing.not_hits hlt hi hj
      exact not_lt.mp hmiss
    · have hmiss : ¬ Hits d nmsThreshold (rankOf sorted) j i := Standing.not_hits hgt hj hi
      rw [Candidate.overlap_comm]
      exact not_lt.mp hmiss
  refine ⟨objProbs, sorted, indexArray, r, hsort, hsuppress, hselect, ?_,
    (firstRanks (Standing (TurnBefore d) (Hits d nmsThreshold (rankOf sorted)))
      d.validCount objNumbMaxSize).map fun k => d.candidate (rankOf sorted k), ?_, ?_⟩
  · intro i j m n hij hm hn hm1 hn1 _
    obtain ⟨-, hi, rfl⟩ := hmarks.of_survivor hm hm1
    obtain ⟨-, hj, rfl⟩ := hmarks.of_survivor hn hn1
    exact hkey i j hij hi hj
  · rw [hreported, List.map_map]
    rfl
  · intro i j a b hij ha hb _
    rw [List.getElem?_map, Option.map_eq_some_iff] at ha hb
    obtain ⟨k, hk, rfl⟩ := ha
    obtain ⟨l, hl, rfl⟩ := hb
    have hkl : k ≠ l := by
      rintro rfl
      exact hij ((List.getElem?_inj (List.getElem?_eq_some_iff.mp hk).1 (firstRanks_nodup _ _)).mp
        (hk.trans hl.symm))
    exact hkey k l hkl (mem_firstRanks.mp (List.mem_of_getElem? hk)).2.1
      (mem_firstRanks.mp (List.mem_of_getElem? hl)).2.1

end CatDect.Postprocess
