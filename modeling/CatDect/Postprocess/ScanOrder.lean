import CatDect.Postprocess.Reported

/-!
# What the scan order decides

`nms` reads the class of position `i` of the score order from the array that is in
scan order.  Two things a per-class suppression promises therefore hold under a
condition only: that every removed box is overlapped by a reported box of its own
class, and that the result does not depend on the order in which cells are scanned.
Each is first characterised by the turns the passes take, and then derived from a
condition on the candidates alone.
-/

namespace CatDect.Postprocess

open CatDect.Support

structure ByScore (d : Candidates) (rank : ℕ → ℕ) : Prop where
  rank_lt : ∀ i < d.validCount, rank i < d.validCount
  rank_inj : ∀ i < d.validCount, ∀ j < d.validCount, rank i = rank j → i = j
  falling : ∀ j < d.validCount, ∀ i < j,
    (d.candidate (rank j)).score ≤ (d.candidate (rank i)).score

theorem Candidates.map_score_toList (d : Candidates) :
    d.toList.map Candidate.score = d.objProbs := by
  apply List.ext_getElem?
  intro i
  by_cases hi : i < d.validCount
  · unfold toList
    rw [List.map_map, List.getElem?_map, List.getElem?_range hi, objProbs_getElem? hi]
    rfl
  · rw [List.getElem?_eq_none (by rw [List.length_map, toList_length]; omega),
      List.getElem?_eq_none (by rw [d.objProbs_length]; omega)]

section Ranked

variable {d : Candidates} {objProbs : List ℚ} {sorted : List ℤ} {rank : ℕ → ℕ}

theorem Ranking.byScore (h : Ranking d objProbs sorted rank) : ByScore d rank where
  rank_lt := h.rank_lt
  rank_inj := h.rank_inj
  falling := fun j hj i hij => h.sorted i j hij.le hj

theorem Ranking.sorted_eq (h : Ranking d objProbs sorted rank) {j : ℕ} {m : ℤ}
    (hm : sorted[j]? = some m) : j < d.validCount ∧ m = rank j := by
  have hj : j < d.validCount := by
    rw [← h.indexArray_marks.length_eq]
    exact (List.getElem?_eq_some_iff.mp hm).1
  rw [h.indexArray_marks.of_alive j hj trivial] at hm
  exact ⟨hj, (Option.some.inj hm).symm⟩

theorem ByScore.perm_toList (h : ByScore d rank) :
    ((List.range d.validCount).map fun i => d.candidate (rank i)).Perm d.toList := by
  have hnodup : ((List.range d.validCount).map rank).Nodup := by
    apply List.Nodup.map_on _ List.nodup_range
    intro i hi j hj heq
    exact h.rank_inj i (List.mem_range.mp hi) j (List.mem_range.mp hj) heq
  have hsub : (List.range d.validCount).map rank ⊆ List.range d.validCount := by
    intro k hk
    obtain ⟨i, hi, rfl⟩ := List.mem_map.mp hk
    exact List.mem_range.mpr (h.rank_lt i (List.mem_range.mp hi))
  have hperm : ((List.range d.validCount).map rank).Perm (List.range d.validCount) :=
    (List.subperm_of_subset hnodup hsub).perm_of_length_le (by simp)
  have hmap := hperm.map d.candidate
  rwa [List.map_map] at hmap

theorem ByScore.pairwise (h : ByScore d rank) :
    ((List.range d.validCount).map fun i => d.candidate (rank i)).Pairwise
      fun a b => b.score ≤ a.score := by
  apply List.pairwise_map.mpr
  apply List.pairwise_lt_range.imp_of_mem
  intro i j _ hj hij
  exact h.falling j (List.mem_range.mp hj) i hij

theorem ByScore.candidate_eq {d' : Candidates} {rank' : ℕ → ℕ} (h : ByScore d rank)
    (h' : ByScore d' rank') (hperm : d.toList.Perm d'.toList) (hscores : d.objProbs.Nodup) {i : ℕ}
    (hi : i < d.validCount) : d.candidate (rank i) = d'.candidate (rank' i) := by
  have hn : d.validCount = d'.validCount := by simpa using hperm.length_eq
  have hinj : ∀ a ∈ d.toList, ∀ b ∈ d.toList, a.score = b.score → a = b := by
    rw [← d.map_score_toList] at hscores
    exact fun a ha b hb => List.inj_on_of_nodup_map hscores ha hb
  have heq : ((List.range d.validCount).map fun i => d.candidate (rank i)) =
      (List.range d'.validCount).map fun i => d'.candidate (rank' i) := by
    apply List.Perm.eq_of_pairwise _ h.pairwise h'.pairwise
      (h.perm_toList.trans (hperm.trans h'.perm_toList.symm))
    intro a b ha hb hab hba
    exact hinj a (h.perm_toList.subset ha) b (hperm.symm.subset (h'.perm_toList.subset hb))
      (le_antisymm hba hab)
  have hget := congrArg (fun l => l[i]?) heq
  simp only [List.getElem?_map, List.getElem?_range hi, List.getElem?_range (hn ▸ hi),
    Option.map_some] at hget
  exact Option.some.inj hget

end Ranked

/-! ## Completeness of the suppression -/

/-- Every removed entry has a surviving entry above it, of its own class, that overlaps
it above the threshold. -/
def SuppressionComplete (d : Candidates) (nmsThreshold : ℚ) (sorted indexArray : List ℤ) : Prop :=
  ∀ (j : ℕ) (m : ℤ), sorted[j]? = some m → indexArray[j]? = some (-1) →
    ∃ (i : ℕ) (n : ℤ), i < j ∧ indexArray[i]? = some n ∧ n ≠ -1 ∧
      (d.candidate n.toNat).cls = (d.candidate m.toNat).cls ∧
      nmsThreshold < (d.candidate n.toNat).overlap (d.candidate m.toNat)

def SameClass (d : Candidates) (rank : ℕ → ℕ) (i j : ℕ) : Prop :=
  (d.candidate (rank i)).cls = (d.candidate (rank j)).cls

def PerClassGreedy (d : Candidates) (nmsThreshold : ℚ) (rank : ℕ → ℕ) : ℕ → Prop :=
  Kernel fun i j => SameClass d rank i j ∧ Hits d nmsThreshold rank i j

section Complete

variable {d : Candidates} {nmsThreshold : ℚ} {objProbs : List ℚ} {sorted indexArray : List ℤ}
  {rank : ℕ → ℕ} {alive : ℕ → Prop}

theorem Marks.dead_iff (h : Marks d rank alive indexArray) {j : ℕ} (hj : j < d.validCount) :
    indexArray[j]? = some (-1) ↔ ¬ alive j := by
  constructor
  · intro hdead ha
    have hread := (h.of_alive j hj ha).symm.trans hdead
    have := Option.some.inj hread
    omega
  · exact h.of_dead j hj

theorem suppressionComplete_iff_positions (hrank : Ranking d objProbs sorted rank)
    (hmarks : Marks d rank alive indexArray) :
    SuppressionComplete d nmsThreshold sorted indexArray ↔
      ∀ j, j < d.validCount → ¬ alive j →
        ∃ i, i < j ∧ SameClass d rank i j ∧ alive i ∧ Hits d nmsThreshold rank i j := by
  constructor
  · intro h j hj hdown
    obtain ⟨i, n, hij, hn, hne, hcls, hhit⟩ :=
      h j _ (hrank.indexArray_marks.of_alive j hj trivial) (hmarks.of_dead j hj hdown)
    classical
    obtain ⟨-, hi, rfl⟩ := hmarks.of_survivor hn hne
    exact ⟨i, hij, hcls, hi, hhit⟩
  · intro h j m hm hdead
    obtain ⟨hj, rfl⟩ := hrank.sorted_eq hm
    obtain ⟨i, hij, hcls, hi, hhit⟩ := h j hj ((hmarks.dead_iff hj).mp hdead)
    exact ⟨i, rank i, hij, hmarks.of_alive i (hij.trans hj) hi, by omega, hcls, hhit⟩

end Complete

/-- The passes remove only boxes that a surviving box of their own class overlaps, exactly if no
position that is standing at its turn hits a lower-ranked one that the per-class greedy
selection keeps. -/
theorem suppressionComplete_iff (d : Candidates) (nmsThreshold : ℚ) :
    ∃ objProbs sorted indexArray, sortCandidates d = some (objProbs, sorted) ∧
      suppress d nmsThreshold sorted = some indexArray ∧ ByScore d (rankOf sorted) ∧
      (SuppressionComplete d nmsThreshold sorted indexArray ↔
        ∀ i j, i < j → j < d.validCount → Hits d nmsThreshold (rankOf sorted) i j →
          PerClassGreedy d nmsThreshold (rankOf sorted) j →
          ¬ Effective (TurnBefore d) (Hits d nmsThreshold (rankOf sorted)) i) := by
  obtain ⟨objProbs, sorted, indexArray, -, hsort, hsuppress, -, hrank, hmarks, -⟩ :=
    postProcessSelect_spec d nmsThreshold 0 0
  refine ⟨objProbs, sorted, indexArray, hsort, hsuppress, hrank.byScore, ?_⟩
  rw [suppressionComplete_iff_positions hrank hmarks]
  exact complete_iff (D := fun j => j < d.validCount) fun i j hij hj => hij.trans hj

/-! ### Overlaps in turn -/

/-- Two ranks that overlap above the threshold are of one class, and the first has its turn no
later than the second, if this one overlaps any rank below it. -/
def OverlapsInTurn (d : Candidates) (nmsThreshold : ℚ) (rank : ℕ → ℕ) : Prop :=
  ∀ i j, i < j → j < d.validCount → Hits d nmsThreshold rank i j → SameClass d rank i j ∧
    (TurnBefore d i j ∨ ∀ k, j < k → k < d.validCount → ¬ Hits d nmsThreshold rank j k)

/-- A rank that none overlaps from above overlaps one of another class that no other rank
overlaps from above. -/
def ForeignOverlap (d : Candidates) (nmsThreshold : ℚ) (rank : ℕ → ℕ) : Prop :=
  ∃ i j, i < j ∧ j < d.validCount ∧ Hits d nmsThreshold rank i j ∧ ¬ SameClass d rank i j ∧
    (∀ k < i, ¬ Hits d nmsThreshold rank k i) ∧ ∀ k < j, Hits d nmsThreshold rank k j → k = i

/-- **The suppression is complete if the overlaps are in turn.**  That is enough in every order
of falling scores, while a single overlap of two classes that no other box interferes with
makes the suppression incomplete. -/
theorem suppressionComplete_of_inTurn (d : Candidates) (nmsThreshold : ℚ) :
    ∃ objProbs sorted indexArray, sortCandidates d = some (objProbs, sorted) ∧
      suppress d nmsThreshold sorted = some indexArray ∧
      ((∀ rank, ByScore d rank → OverlapsInTurn d nmsThreshold rank) →
        SuppressionComplete d nmsThreshold sorted indexArray) ∧
      ((∀ rank, ByScore d rank → ForeignOverlap d nmsThreshold rank) →
        ¬ SuppressionComplete d nmsThreshold sorted indexArray) := by
  obtain ⟨objProbs, sorted, indexArray, hsort, hsuppress, hrank, hiff⟩ :=
    suppressionComplete_iff d nmsThreshold
  refine ⟨objProbs, sorted, indexArray, hsort, hsuppress, ?_, ?_⟩
  · intro hturns
    apply hiff.mpr
    intro i j hij hj hh hker
    exact not_effective_of_inTurn (D := fun j => j < d.validCount) (fun i j hij hj => hij.trans hj)
      (hturns _ hrank) hij hj hh hker
  · intro hforeign hcomplete
    obtain ⟨i, j, hij, hj, hh, hother, hfirst, honly⟩ := hforeign _ hrank
    have hlone : PerClassGreedy d nmsThreshold (rankOf sorted) j ∧
        Effective (TurnBefore d) (Hits d nmsThreshold (rankOf sorted)) i :=
      effective_of_lone_hit hfirst honly hother
    exact hiff.mp hcomplete i j hij hj hh hlone.1 hlone.2

section Distinct

variable {d : Candidates} {nmsThreshold : ℚ} {rank rank' : ℕ → ℕ}

theorem ByScore.hits_iff (h : ByScore d rank) (h' : ByScore d rank') (hscores : d.objProbs.Nodup)
    {i j : ℕ} (hij : i < j) (hj : j < d.validCount) :
    (Hits d nmsThreshold rank' i j ↔ Hits d nmsThreshold rank i j) ∧
      (SameClass d rank' i j ↔ SameClass d rank i j) := by
  have hcand : ∀ i < d.validCount, d.candidate (rank' i) = d.candidate (rank i) :=
    fun i hi => h'.candidate_eq h (List.Perm.refl _) hscores hi
  unfold Hits SameClass
  rw [hcand i (hij.trans hj), hcand j hj]
  exact ⟨Iff.rfl, Iff.rfl⟩

theorem ByScore.overlapsInTurn (h : ByScore d rank) (h' : ByScore d rank')
    (hscores : d.objProbs.Nodup) (hturns : OverlapsInTurn d nmsThreshold rank) :
    OverlapsInTurn d nmsThreshold rank' := by
  intro i j hij hj hh
  obtain ⟨hhits, hsame⟩ := h.hits_iff h' hscores hij hj
  rw [hhits] at hh
  rw [hsame]
  refine (hturns i j hij hj hh).imp id fun hturn => hturn.imp id ?_
  intro hend k hjk hk
  rw [(h.hits_iff h' hscores hjk hk).1]
  exact hend k hjk hk

theorem ByScore.foreignOverlap (h : ByScore d rank) (h' : ByScore d rank')
    (hscores : d.objProbs.Nodup) (hforeign : ForeignOverlap d nmsThreshold rank) :
    ForeignOverlap d nmsThreshold rank' := by
  obtain ⟨i, j, hij, hj, hh, hother, hfirst, honly⟩ := hforeign
  obtain ⟨hhits, hsame⟩ := h.hits_iff h' hscores hij hj
  refine ⟨i, j, hij, hj, hhits.mpr hh, fun hs => hother (hsame.mp hs), ?_, ?_⟩
  · intro k hk
    rw [(h.hits_iff h' hscores hk (hij.trans hj)).1]
    exact hfirst k hk
  · intro k hk
    rw [(h.hits_iff h' hscores hk hj).1]
    exact honly k hk

end Distinct

def personOverCat : Candidates :=
  .ofList [⟨100, 100, 200, 200, 9 / 10, 0⟩, ⟨100, 100, 200, 200, 4 / 5, 15⟩]

def personsAndCat : Candidates :=
  .ofList [⟨100, 100, 200, 200, 9 / 10, 0⟩, ⟨110, 100, 200, 200, 4 / 5, 0⟩,
    ⟨400, 100, 50, 50, 7 / 10, 15⟩]

theorem suppressionComplete_personsAndCat :
    (∃ objProbs sorted indexArray, sortCandidates personsAndCat = some (objProbs, sorted) ∧
      suppress personsAndCat (9 / 20) sorted = some indexArray ∧
      SuppressionComplete personsAndCat (9 / 20) sorted indexArray) ∧
    ∃ objProbs sorted indexArray, sortCandidates personOverCat = some (objProbs, sorted) ∧
      suppress personOverCat (9 / 20) sorted = some indexArray ∧
      ¬ SuppressionComplete personOverCat (9 / 20) sorted indexArray := by
  constructor
  · have hrank : ByScore personsAndCat id := by
      refine ⟨?_, ?_, ?_⟩ <;> decide +kernel
    have hclass : ∀ j < personsAndCat.validCount, ∀ i < j,
        9 / 20 < (personsAndCat.candidate i).overlap (personsAndCat.candidate j) →
        (personsAndCat.candidate i).cls = (personsAndCat.candidate j).cls := by decide +kernel
    obtain ⟨objProbs, sorted, indexArray, hsort, hsuppress, hcomplete, -⟩ :=
      suppressionComplete_of_inTurn personsAndCat (9 / 20)
    refine ⟨objProbs, sorted, indexArray, hsort, hsuppress, hcomplete ?_⟩
    intro rank h
    apply hrank.overlapsInTurn h (by decide +kernel)
    exact fun i j hij hj hh => ⟨hclass j hj i hij hh, .inl (hclass j hj i hij hh).le⟩
  · have hrank : ByScore personOverCat id := by
      refine ⟨?_, ?_, ?_⟩ <;> decide +kernel
    have hhits : Hits personOverCat (9 / 20) id 0 1 := by
      unfold Hits
      decide +kernel
    have hother : ¬ SameClass personOverCat id 0 1 := by
      unfold SameClass
      decide +kernel
    obtain ⟨objProbs, sorted, indexArray, hsort, hsuppress, -, hincomplete⟩ :=
      suppressionComplete_of_inTurn personOverCat (9 / 20)
    refine ⟨objProbs, sorted, indexArray, hsort, hsuppress, hincomplete ?_⟩
    intro rank h
    apply hrank.foreignOverlap h (by decide +kernel)
    refine ⟨0, 1, by decide, by decide, hhits, hother, ?_, ?_⟩
    · exact fun k hk => absurd hk (Nat.not_lt_zero k)
    · exact fun k hk _ => by omega

theorem person_suppresses_cat :
    sortCandidates personOverCat = some ([9 / 10, 4 / 5], [0, 1]) ∧
      suppress personOverCat (9 / 20) [0, 1] = some [0, -1] ∧
      ¬ SuppressionComplete personOverCat (9 / 20) [0, 1] [0, -1] := by
  refine ⟨by decide +kernel, by decide +kernel, ?_⟩
  intro h
  obtain ⟨i, n, hi, hn, -, hcls, -⟩ := h 1 1 rfl rfl
  have hzero : i = 0 := by omega
  subst hzero
  have hperson : 0 = n := Option.some.inj hn
  subst hperson
  exact absurd hcls (by decide +kernel)

theorem survivors_of_complete (d : Candidates) (nmsThreshold : ℚ) :
    ∃ objProbs sorted indexArray, sortCandidates d = some (objProbs, sorted) ∧
      suppress d nmsThreshold sorted = some indexArray ∧
      (SuppressionComplete d nmsThreshold sorted indexArray →
        Marks d (rankOf sorted) (PerClassGreedy d nmsThreshold (rankOf sorted)) indexArray) := by
  obtain ⟨objProbs, sorted, indexArray, -, hsort, hsuppress, -, hrank, hmarks, -⟩ :=
    postProcessSelect_spec d nmsThreshold 0 0
  refine ⟨objProbs, sorted, indexArray, hsort, hsuppress, ?_⟩
  intro hcomplete
  rw [suppressionComplete_iff_positions hrank hmarks] at hcomplete
  exact hmarks.congr (standing_iff_kernel_of_complete (fun i j hij hj => hij.trans hj) hcomplete)

/-! ## Independence of the scan order -/

/-- The positions at which candidates of `d` are standing at the end, when the hits are
those of `rank` and the turns those of the scan order of `d'`. -/
def StandingIn (d' d : Candidates) (nmsThreshold : ℚ) (rank : ℕ → ℕ) : ℕ → Prop :=
  Standing (TurnBefore d') (Hits d nmsThreshold rank)

def EffectiveIn (d' d : Candidates) (nmsThreshold : ℚ) (rank : ℕ → ℕ) : ℕ → Prop :=
  Effective (TurnBefore d') (Hits d nmsThreshold rank)

open Classical in
/-- The scan orders of `d₁` and `d₂` agree on the turns that matter: as long as neither
order has filled the result table, a position that is standing at its turn in only one
of them hits nothing but what another position has hit in the other order. -/
def TurnsAgree (d₁ d₂ : Candidates) (nmsThreshold : ℚ) (rank : ℕ → ℕ) : Prop :=
  ∀ i j, i < j → j < d₁.validCount →
    Nat.count (StandingIn d₁ d₁ nmsThreshold rank) j < objNumbMaxSize →
    Nat.count (StandingIn d₂ d₁ nmsThreshold rank) j < objNumbMaxSize →
    Hits d₁ nmsThreshold rank i j →
    (EffectiveIn d₂ d₁ nmsThreshold rank i → ¬ EffectiveIn d₁ d₁ nmsThreshold rank i →
      ∃ k, k < j ∧ Hits d₁ nmsThreshold rank k j ∧ EffectiveIn d₁ d₁ nmsThreshold rank k) ∧
    (EffectiveIn d₁ d₁ nmsThreshold rank i → ¬ EffectiveIn d₂ d₁ nmsThreshold rank i →
      ∃ k, k < j ∧ Hits d₁ nmsThreshold rank k j ∧ EffectiveIn d₂ d₁ nmsThreshold rank k)

section TwoScans

variable {d₁ d₂ : Candidates} {nmsThreshold : ℚ} {rank : ℕ → ℕ}

open Classical in
theorem turnsAgree_iff :
    TurnsAgree d₁ d₂ nmsThreshold rank ↔
      firstRanks (StandingIn d₁ d₁ nmsThreshold rank) d₁.validCount objNumbMaxSize =
        firstRanks (StandingIn d₂ d₁ nmsThreshold rank) d₁.validCount objNumbMaxSize := by
  rw [firstRanks_eq_iff]
  have hturns := standing_iff_standing (TurnBefore d₁) (TurnBefore d₂)
    (Hits d₁ nmsThreshold rank)
    (D := fun j => j < d₁.validCount ∧
      Nat.count (StandingIn d₁ d₁ nmsThreshold rank) j < objNumbMaxSize ∧
      Nat.count (StandingIn d₂ d₁ nmsThreshold rank) j < objNumbMaxSize)
  simp only [not_standing_iff, and_imp] at hturns
  exact hturns.symm

theorem ByScore.report_injective (h : ByScore d₁ rank) (hscores : d₁.objProbs.Nodup)
    {modelInW modelInH : ℤ} {i j : ℕ} (hi : i < d₁.validCount) (hj : j < d₁.validCount)
    (heq : (d₁.candidate (rank i)).report modelInW modelInH =
      (d₁.candidate (rank j)).report modelInW modelInH) : i = j := by
  have hscore : (d₁.candidate (rank i)).score = (d₁.candidate (rank j)).score :=
    congrArg ObjectDetectResult.prop heq
  apply h.rank_inj i hi j hj
  have hget : d₁.objProbs[rank i]? = d₁.objProbs[rank j]? := by
    rw [Candidates.objProbs_getElem? (h.rank_lt i hi),
      Candidates.objProbs_getElem? (h.rank_lt j hj), hscore]
  have hlt : rank i < d₁.objProbs.length := by
    rw [d₁.objProbs_length]
    exact h.rank_lt i hi
  exact (List.getElem?_inj hlt hscores).mp hget

theorem ByScore.report_map_injective (h : ByScore d₁ rank) (hscores : d₁.objProbs.Nodup)
    {modelInW modelInH : ℤ} {l l' : List ℕ} (hl : ∀ i ∈ l, i < d₁.validCount)
    (hl' : ∀ i ∈ l', i < d₁.validCount) :
    l.map (fun k => (d₁.candidate (rank k)).report modelInW modelInH) =
      l'.map (fun k => (d₁.candidate (rank k)).report modelInW modelInH) ↔ l = l' := by
  constructor
  · intro heq
    induction l generalizing l' with
    | nil => exact (List.map_eq_nil_iff.mp heq.symm).symm
    | cons i l ih =>
        cases l' with
        | nil => exact absurd heq (by simp)
        | cons j l' =>
            rw [List.map_cons, List.map_cons, List.cons_eq_cons] at heq
            have hij := h.report_injective hscores (hl i (by simp)) (hl' j (by simp)) heq.1
            subst hij
            rw [ih (fun k hk => hl k (by simp [hk])) (fun k hk => hl' k (by simp [hk])) heq.2]
  · intro heq
    rw [heq]

open Classical in
theorem ByScore.reported_eq (h : ByScore d₁ rank) (hperm : d₁.toList.Perm d₂.toList)
    (hscores : d₁.objProbs.Nodup) (nmsThreshold : ℚ) (modelInW modelInH : ℤ) :
    ∃ r, postProcessSelect d₂ nmsThreshold modelInW modelInH = some r ∧ r.Fresh ∧
      r.reported = (firstRanks (StandingIn d₂ d₁ nmsThreshold rank) d₁.validCount
        objNumbMaxSize).map fun k => (d₁.candidate (rank k)).report modelInW modelInH := by
  obtain ⟨objProbs, sorted, -, r, -, -, hselect, hrank, -, -, hreported, hfresh⟩ :=
    postProcessSelect_spec d₂ nmsThreshold modelInW modelInH
  have hn : d₁.validCount = d₂.validCount := by simpa using hperm.length_eq
  have hcand : ∀ i < d₁.validCount, d₁.candidate (rank i) = d₂.candidate (rankOf sorted i) :=
    fun i hi => h.candidate_eq hrank.byScore hperm hscores hi
  have hstanding : ∀ j < d₁.validCount,
      (Standing (TurnBefore d₂) (Hits d₂ nmsThreshold (rankOf sorted)) j ↔
        StandingIn d₂ d₁ nmsThreshold rank j) := by
    intro j hj
    apply standing_congr (D := fun j => j < d₁.validCount) (fun i j hij hj => hij.trans hj) _ hj
    intro i j hij hj
    unfold Hits
    rw [hcand i (hij.trans hj), hcand j hj]
  have hranks : firstRanks (Standing (TurnBefore d₂) (Hits d₂ nmsThreshold (rankOf sorted)))
        d₂.validCount objNumbMaxSize =
      firstRanks (StandingIn d₂ d₁ nmsThreshold rank) d₁.validCount objNumbMaxSize := by
    rw [← hn]
    exact firstRanks_eq_iff.mpr fun j hj _ _ => hstanding j hj
  refine ⟨r, hselect, hfresh, ?_⟩
  rw [hreported, hranks]
  exact List.map_congr_left fun k hk => by rw [hcand k (mem_firstRanks.mp hk).1]

/-- Two scans of the same candidates, with distinct scores, give the same result list exactly if
their turns agree where it matters. -/
theorem postProcessSelect_eq_iff (hperm : d₁.toList.Perm d₂.toList) (hscores : d₁.objProbs.Nodup)
    (hrank : ByScore d₁ rank) (modelInW modelInH : ℤ) :
    postProcessSelect d₁ nmsThreshold modelInW modelInH =
        postProcessSelect d₂ nmsThreshold modelInW modelInH ↔
      TurnsAgree d₁ d₂ nmsThreshold rank := by
  classical
  obtain ⟨r₁, hselect₁, hfresh₁, hreported₁⟩ :=
    hrank.reported_eq (List.Perm.refl _) hscores nmsThreshold modelInW modelInH
  obtain ⟨r₂, hselect₂, hfresh₂, hreported₂⟩ :=
    hrank.reported_eq hperm hscores nmsThreshold modelInW modelInH
  have hlt : ∀ {S : ℕ → Prop}, ∀ k ∈ firstRanks S d₁.validCount objNumbMaxSize,
      k < d₁.validCount := fun k hk => (mem_firstRanks.mp hk).1
  calc postProcessSelect d₁ nmsThreshold modelInW modelInH =
        postProcessSelect d₂ nmsThreshold modelInW modelInH
      ↔ r₁.reported = r₂.reported := by
        rw [hselect₁, hselect₂, Option.some_inj]
        exact ⟨fun heq => by rw [heq], hfresh₁.ext hfresh₂⟩
    _ ↔ firstRanks (StandingIn d₁ d₁ nmsThreshold rank) d₁.validCount objNumbMaxSize =
        firstRanks (StandingIn d₂ d₁ nmsThreshold rank) d₁.validCount objNumbMaxSize := by
        rw [hreported₁, hreported₂]
        exact hrank.report_map_injective hscores hlt hlt
    _ ↔ TurnsAgree d₁ d₂ nmsThreshold rank := turnsAgree_iff.symm

end TwoScans

/-! ### Chains of overlaps -/

/-- Wherever a rank overlaps a second above the threshold and this a third, the two scans agree
whether the first has its turn no later than the second. -/
def ChainTurnsAgree (d₁ d₂ : Candidates) (nmsThreshold : ℚ) (rank : ℕ → ℕ) : Prop :=
  ∀ i j k, i < j → j < k → k < d₁.validCount → Hits d₁ nmsThreshold rank i j →
    Hits d₁ nmsThreshold rank j k → (TurnBefore d₁ i j ↔ TurnBefore d₂ i j)

/-- They disagree at a chain among the first 128 ranks that no other overlap touches from above. -/
def LoneChainDiffers (d₁ d₂ : Candidates) (nmsThreshold : ℚ) (rank : ℕ → ℕ) : Prop :=
  ∃ i j k, i < j ∧ j < k ∧ k < d₁.validCount ∧ k < objNumbMaxSize ∧
    Hits d₁ nmsThreshold rank i j ∧ Hits d₁ nmsThreshold rank j k ∧
    (∀ l < i, ¬ Hits d₁ nmsThreshold rank l i) ∧
    (∀ l < j, Hits d₁ nmsThreshold rank l j → l = i) ∧
    (∀ l < k, Hits d₁ nmsThreshold rank l k → l = j) ∧ ¬ (TurnBefore d₁ i j ↔ TurnBefore d₂ i j)

/-- **When the scan order is irrelevant.**  Two scans of the same candidates, with distinct
scores, give the same result list if their turns agree on the chains of overlaps, and different
ones if they disagree at a chain that stands alone. -/
theorem postProcessSelect_eq_of_turns (d₁ d₂ : Candidates) (nmsThreshold : ℚ)
    (modelInW modelInH : ℤ) {rank : ℕ → ℕ} (hperm : d₁.toList.Perm d₂.toList)
    (hscores : d₁.objProbs.Nodup) (hrank : ByScore d₁ rank) :
    (ChainTurnsAgree d₁ d₂ nmsThreshold rank →
      postProcessSelect d₁ nmsThreshold modelInW modelInH =
        postProcessSelect d₂ nmsThreshold modelInW modelInH) ∧
    (LoneChainDiffers d₁ d₂ nmsThreshold rank →
      postProcessSelect d₁ nmsThreshold modelInW modelInH ≠
        postProcessSelect d₂ nmsThreshold modelInW modelInH) := by
  classical
  rw [Ne, postProcessSelect_eq_iff hperm hscores hrank, turnsAgree_iff]
  constructor
  · intro hagree
    apply firstRanks_eq_iff.mpr
    intro k hk _ _
    exact standing_iff_of_chains (D := fun k => k < d₁.validCount)
      (fun i j hij hj => hij.trans hj) hagree hk
  · rintro ⟨i, j, k, hij, hjk, hk, hcap, hhij, hhjk, hfirst, hsecond, hthird, hturns⟩ hsame
    have hmem : ∀ d : Candidates,
        k ∈ firstRanks (StandingIn d d₁ nmsThreshold rank) d₁.validCount objNumbMaxSize ↔
          TurnBefore d i j := by
      intro d
      have hcount := (Nat.count_le (p := StandingIn d d₁ nmsThreshold rank) (n := k)).trans_lt hcap
      rw [mem_firstRanks, StandingIn,
        standing_iff_of_lone_chain hij hjk hhij hhjk hfirst hsecond hthird]
      exact ⟨fun h => h.2.1, fun h => ⟨hk, h, hcount⟩⟩
    apply hturns
    rw [← hmem d₁, hsame, hmem d₂]

def personCatPerson : Candidates :=
  .ofList [⟨0, 0, 10, 10, 9 / 10, 0⟩, ⟨4, 0, 10, 10, 4 / 5, 15⟩, ⟨8, 0, 10, 10, 7 / 10, 0⟩]

def catPersonPerson : Candidates :=
  .ofList [⟨4, 0, 10, 10, 4 / 5, 15⟩, ⟨0, 0, 10, 10, 9 / 10, 0⟩, ⟨8, 0, 10, 10, 7 / 10, 0⟩]

def personCatPersonBack : Candidates :=
  .ofList [⟨8, 0, 10, 10, 7 / 10, 0⟩, ⟨4, 0, 10, 10, 4 / 5, 15⟩, ⟨0, 0, 10, 10, 9 / 10, 0⟩]

theorem postProcessSelect_personCatPerson :
    postProcessSelect personCatPerson (9 / 20) 640 640 =
        postProcessSelect personCatPersonBack (9 / 20) 640 640 ∧
      postProcessSelect personCatPerson (9 / 20) 640 640 ≠
        postProcessSelect catPersonPerson (9 / 20) 640 640 := by
  have hrank : ByScore personCatPerson id := by
    refine ⟨?_, ?_, ?_⟩ <;> decide +kernel
  constructor
  · have hclasses : ∀ i < personCatPerson.validCount,
        (personCatPerson.candidate i).cls = (personCatPersonBack.candidate i).cls := by
      decide +kernel
    apply (postProcessSelect_eq_of_turns personCatPerson personCatPersonBack (9 / 20) 640 640
      (by decide +kernel) (by decide +kernel) hrank).1
    intro i j k hij hjk hk _ _
    unfold TurnBefore
    rw [hclasses i (by omega), hclasses j (by omega)]
  · have hhits : ∀ i < 3, ∀ j < 3, i < j →
        (Hits personCatPerson (9 / 20) id i j ↔ j = i + 1) := by
      unfold Hits
      decide +kernel
    have hturns : ¬ (TurnBefore personCatPerson 0 1 ↔ TurnBefore catPersonPerson 0 1) := by
      unfold TurnBefore
      decide +kernel
    apply (postProcessSelect_eq_of_turns personCatPerson catPersonPerson (9 / 20) 640 640
      (by decide +kernel) (by decide +kernel) hrank).2
    refine ⟨0, 1, 2, by decide, by decide, by decide, by decide, ?_, ?_, ?_, ?_, ?_, hturns⟩
    · exact (hhits 0 (by decide) 1 (by decide) (by decide)).mpr rfl
    · exact (hhits 1 (by decide) 2 (by decide) (by decide)).mpr rfl
    · exact fun l hl => absurd hl (Nat.not_lt_zero l)
    · exact fun l hl _ => by omega
    · intro l hl hh
      have := (hhits l (by omega) 2 (by decide) hl).mp hh
      omega

/-- Scanned in the order of the scores both persons are reported, otherwise one. -/
theorem scan_order_decides_report :
    personCatPerson.toList.Perm catPersonPerson.toList ∧ personCatPerson.objProbs.Nodup ∧
      postProcessSelect personCatPerson (9 / 20) 640 640 ≠
        postProcessSelect catPersonPerson (9 / 20) 640 640 := by
  exact ⟨by decide +kernel, by decide +kernel, by decide +kernel⟩

end CatDect.Postprocess
