import CatDect.Postprocess.Candidates
import CatDect.Support.Kernel
import CatDect.Support.Loops
import Mathlib.Data.List.Dedup
import Mathlib.Data.List.Sort

/-!
# Non-maximum suppression

`nms` is run once for every class id that occurs, in ascending order, over the
array of candidate indices that the sort has put into score order.  A pass skips
position `i` unless `classIds[i]` is its class.  `classIds` is in scan order while
`order` is in score order, so the test reads the class of the candidate *scanned*
`i`-th and not of the candidate *ranked* `i`-th, and the inner loop tests
`classIds[i]` once more where the struck position `j` would be expected.

What the passes compute is therefore a suppression by turns: position `i` has its
turn in the pass of `classIds[i]`, and strikes lower-ranked positions of every class.
-/

namespace CatDect.Postprocess

open CatDect.Support

/-! ## The code -/

def calculateOverlap (xmin0 ymin0 xmax0 ymax0 xmin1 ymin1 xmax1 ymax1 : ℚ) : ℚ :=
  let w := max 0 (min xmax0 xmax1 - max xmin0 xmin1 + 1)
  let h := max 0 (min ymax0 ymax1 - max ymin0 ymin1 + 1)
  let i := w * h
  let u := (xmax0 - xmin0 + 1) * (ymax0 - ymin0 + 1) +
    (xmax1 - xmin1 + 1) * (ymax1 - ymin1 + 1) - i
  if u ≤ 0 then 0 else i / u

def iouAt (outputLocations : List ℚ) (n m : ℤ) : Option ℚ := do
  let xmin0 ← readAt outputLocations (n * 4 + 0)
  let ymin0 ← readAt outputLocations (n * 4 + 1)
  let w0 ← readAt outputLocations (n * 4 + 2)
  let h0 ← readAt outputLocations (n * 4 + 3)
  let xmin1 ← readAt outputLocations (m * 4 + 0)
  let ymin1 ← readAt outputLocations (m * 4 + 1)
  let w1 ← readAt outputLocations (m * 4 + 2)
  let h1 ← readAt outputLocations (m * 4 + 3)
  some (calculateOverlap xmin0 ymin0 (xmin0 + w0) (ymin0 + h0)
    xmin1 ymin1 (xmin1 + w1) (ymin1 + h1))

/-- The body of the inner loop of `nms`; `n` is the cached `order[i]`. -/
def nmsStrike (outputLocations : List ℚ) (classIds : List ℤ) (filterId : ℤ) (threshold : ℚ)
    (i : ℕ) (n : ℤ) (order : List ℤ) (j : ℕ) : Option (List ℤ) := do
  let m ← readAt order j
  let c ← readAt classIds i
  if m = -1 ∨ c ≠ filterId then some order
  else do
    let iou ← iouAt outputLocations n m
    if iou > threshold then writeAt order j (-1) else some order

/-- The body of the outer loop of `nms`. -/
def nmsVisit (validCount : ℕ) (outputLocations : List ℚ) (classIds : List ℤ) (filterId : ℤ)
    (threshold : ℚ) (order : List ℤ) (i : ℕ) : Option (List ℤ) := do
  let n ← readAt order i
  let c ← readAt classIds i
  if n = -1 ∨ c ≠ filterId then some order
  else
    List.foldlM (nmsStrike outputLocations classIds filterId threshold i n) order
      (List.range' (i + 1) (validCount - (i + 1)))

def nms (validCount : ℕ) (outputLocations : List ℚ) (classIds order : List ℤ) (filterId : ℤ)
    (threshold : ℚ) : Option (List ℤ) :=
  (List.range' 0 validCount).foldlM
    (nmsVisit validCount outputLocations classIds filterId threshold) order

/-- The `std::set<int>` of the class ids, in the order its iterator visits them. -/
def classSet (classId : List ℤ) : List ℤ := classId.dedup.insertionSort (· ≤ ·)

/-- The `nms` passes of `post_process`. -/
def suppress (d : Candidates) (threshold : ℚ) (indexArray : List ℤ) : Option (List ℤ) :=
  (classSet d.classId).foldlM
    (fun indexArray c => nms d.validCount d.filterBoxes d.classId indexArray c threshold)
    indexArray

/-! ## Overlaps between candidates -/

namespace Candidate

def overlap (a b : Candidate) : ℚ :=
  calculateOverlap a.x a.y (a.x + a.w) (a.y + a.h) b.x b.y (b.x + b.w) (b.y + b.h)

theorem overlap_comm (a b : Candidate) : a.overlap b = b.overlap a := by
  simp only [overlap, calculateOverlap, min_comm (b.x + b.w), max_comm b.x,
    min_comm (b.y + b.h), max_comm b.y]
  rw [add_comm ((b.x + b.w - b.x + 1) * (b.y + b.h - b.y + 1))]

end Candidate

theorem iouAt_eq {d : Candidates} {n m : ℕ} (hn : n < d.validCount) (hm : m < d.validCount) :
    iouAt d.filterBoxes n m = some ((d.candidate n).overlap (d.candidate m)) := by
  obtain ⟨h0, h1, h2, h3⟩ := Candidates.readAt_filterBoxes hn
  obtain ⟨k0, k1, k2, k3⟩ := Candidates.readAt_filterBoxes hm
  simp only [iouAt, h0, h1, h2, h3, k0, k1, k2, k3, Option.bind_eq_bind, Option.bind_some]
  rfl

/-! ## Positions, turns and marks -/

section Passes

variable (d : Candidates) (threshold : ℚ) (rank : ℕ → ℕ)

/-- Position `i` has its turn no later than position `j`, for `i < j`. -/
def TurnBefore (i j : ℕ) : Prop := (d.candidate i).cls ≤ (d.candidate j).cls

/-- The candidates ranked `i`-th and `j`-th overlap above the threshold. -/
def Hits (i j : ℕ) : Prop :=
  threshold < (d.candidate (rank i)).overlap (d.candidate (rank j))

/-- `order` holds the ranked candidate indices, with `-1` where `alive` fails. -/
structure Marks (alive : ℕ → Prop) (order : List ℤ) : Prop where
  length_eq : order.length = d.validCount
  of_alive : ∀ i < d.validCount, alive i → order[i]? = some (rank i : ℤ)
  of_dead : ∀ i < d.validCount, ¬ alive i → order[i]? = some (-1)

def StandingAfter (visited : ℕ → Prop) (j : ℕ) : Prop :=
  ∀ i, i < j → visited i → Hits d threshold rank i j →
    ¬ Effective (TurnBefore d) (Hits d threshold rank) i

def Visited (done : List ℤ) (c : ℤ) (i k : ℕ) : Prop :=
  (d.candidate k).cls ∈ done ∨ ((d.candidate k).cls = c ∧ k < i)

variable {d threshold rank}

theorem Marks.congr {alive alive' : ℕ → Prop} {order : List ℤ}
    (h : Marks d rank alive order) (heq : ∀ i < d.validCount, (alive i ↔ alive' i)) :
    Marks d rank alive' order where
  length_eq := h.length_eq
  of_alive := fun i hi ha => h.of_alive i hi ((heq i hi).mpr ha)
  of_dead := fun i hi ha => h.of_dead i hi fun hc => ha ((heq i hi).mp hc)

theorem Marks.strike {alive : ℕ → Prop} {order : List ℤ} {j : ℕ}
    (h : Marks d rank alive order) (hj : j < d.validCount) :
    Marks d rank (fun k => alive k ∧ k ≠ j) (order.set j (-1)) := by
  constructor
  · rw [List.length_set, h.length_eq]
  · intro i hi ha
    rw [List.getElem?_set_ne (Ne.symm ha.2)]
    exact h.of_alive i hi ha.1
  · intro i hi ha
    by_cases hij : i = j
    · subst hij
      exact List.getElem?_set_self (by rw [h.length_eq]; exact hi)
    · rw [List.getElem?_set_ne (Ne.symm hij)]
      exact h.of_dead i hi fun hc => ha ⟨hc, hij⟩

theorem nmsStrike_spec (threshold : ℚ) {alive : ℕ → Prop} {order : List ℤ} {c : ℤ} {i j : ℕ}
    (hrank : ∀ k < d.validCount, rank k < d.validCount) (hi : i < d.validCount)
    (hj : j < d.validCount) (hc : (d.candidate i).cls = c) (h : Marks d rank alive order) :
    ∃ order', nmsStrike d.filterBoxes d.classId c threshold i (rank i) order j = some order' ∧
      Marks d rank (fun k => alive k ∧ ¬ (k = j ∧ Hits d threshold rank i k)) order' := by
  have hclass : readAt d.classId i = some c := by
    rw [readAt_natCast, Candidates.classId_getElem? hi, hc]
  by_cases halive : alive j
  · have hread : readAt order j = some (rank j : ℤ) := by
      rw [readAt_natCast, h.of_alive j hj halive]
    have hne : ¬ ((rank j : ℤ) = -1 ∨ c ≠ c) := by omega
    have hiou := iouAt_eq (hrank i hi) (hrank j hj)
    by_cases hhit : Hits d threshold rank i j
    · refine ⟨order.set j (-1), ?_, ?_⟩
      · unfold nmsStrike
        simp only [hread, hclass, if_neg hne, hiou, Option.bind_eq_bind, Option.bind_some]
        exact (if_pos hhit).trans (writeAt_natCast (by rw [h.length_eq]; exact hj) _)
      · apply (h.strike hj).congr
        intro k _
        exact and_congr_right fun _ => not_congr ⟨fun hk => ⟨hk, hk ▸ hhit⟩, fun hk => hk.1⟩
    · refine ⟨order, ?_, ?_⟩
      · unfold nmsStrike
        simp only [hread, hclass, if_neg hne, hiou, Option.bind_eq_bind, Option.bind_some]
        exact if_neg hhit
      · apply h.congr
        intro k _
        exact ⟨fun hk => ⟨hk, fun hkj => hhit (hkj.1 ▸ hkj.2)⟩, fun hk => hk.1⟩
  · have hread : readAt order j = some (-1) := by
      rw [readAt_natCast, h.of_dead j hj halive]
    refine ⟨order, ?_, ?_⟩
    · unfold nmsStrike
      simp only [hread, hclass, Option.bind_eq_bind, Option.bind_some, true_or, if_true]
    · apply h.congr
      intro k _
      exact ⟨fun hk => ⟨hk, fun hkj => halive (hkj.1 ▸ hk)⟩, fun hk => hk.1⟩

theorem nmsVisit_alive (threshold : ℚ) {alive : ℕ → Prop} {order : List ℤ} {c : ℤ} {i : ℕ}
    (hrank : ∀ k < d.validCount, rank k < d.validCount) (hi : i < d.validCount)
    (hc : (d.candidate i).cls = c) (hal : alive i) (h : Marks d rank alive order) :
    ∃ order', nmsVisit d.validCount d.filterBoxes d.classId c threshold order i = some order' ∧
      Marks d rank (fun k => alive k ∧ ¬ (i < k ∧ Hits d threshold rank i k)) order' := by
  have hread : readAt order i = some (rank i : ℤ) := by
    rw [readAt_natCast, h.of_alive i hi hal]
  have hclass : readAt d.classId i = some c := by
    rw [readAt_natCast, Candidates.classId_getElem? hi, hc]
  have hne : ¬ ((rank i : ℤ) = -1 ∨ c ≠ c) := by omega
  obtain ⟨order', hfold, hmarks⟩ := foldlM_range_rule (i + 1) (d.validCount - (i + 1))
    (f := nmsStrike d.filterBoxes d.classId c threshold i (rank i)) (s := order)
    (fun j order => Marks d rank
      (fun k => alive k ∧ ¬ (i < k ∧ k < j ∧ Hits d threshold rank i k)) order)
    (h.congr fun k _ => ⟨fun hk => ⟨hk, by omega⟩, fun hk => hk.1⟩)
    (by
      intro j order hij hj hmarks
      obtain ⟨order', hstrike, hmarks'⟩ :=
        nmsStrike_spec threshold (j := j) hrank hi (by omega) hc hmarks
      refine ⟨order', hstrike, ?_⟩
      apply hmarks'.congr
      intro k _
      constructor
      · rintro ⟨⟨hk, hbefore⟩, hnow⟩
        refine ⟨hk, ?_⟩
        rintro ⟨hik, hkj, hhit⟩
        rcases Nat.lt_succ_iff_lt_or_eq.mp hkj with hlt | heq
        · exact hbefore ⟨hik, hlt, hhit⟩
        · exact hnow ⟨heq, hhit⟩
      · rintro ⟨hk, hnone⟩
        exact ⟨⟨hk, fun ⟨hik, hkj, hhit⟩ => hnone ⟨hik, by omega, hhit⟩⟩,
          fun ⟨hkj, hhit⟩ => hnone ⟨by omega, by omega, hhit⟩⟩)
  refine ⟨order', ?_, ?_⟩
  · unfold nmsVisit
    simp only [hread, hclass, if_neg hne, Option.bind_eq_bind, Option.bind_some]
    exact hfold
  · apply hmarks.congr
    intro k hk
    apply and_congr_right
    intro _
    apply not_congr
    constructor
    · exact fun hh => ⟨hh.1, hh.2.2⟩
    · exact fun hh => ⟨hh.1, by omega, hh.2⟩

theorem nmsVisit_skip {alive : ℕ → Prop} {order : List ℤ} {c : ℤ} {i : ℕ}
    (hi : i < d.validCount) (hskip : ¬ alive i ∨ (d.candidate i).cls ≠ c)
    (h : Marks d rank alive order) :
    nmsVisit d.validCount d.filterBoxes d.classId c threshold order i = some order := by
  have hclass : readAt d.classId i = some (d.candidate i).cls := by
    rw [readAt_natCast, Candidates.classId_getElem? hi]
  by_cases hal : alive i
  · have hread : readAt order i = some (rank i : ℤ) := by
      rw [readAt_natCast, h.of_alive i hi hal]
    have hne := hskip.resolve_left (not_not_intro hal)
    unfold nmsVisit
    simp only [hread, hclass, Option.bind_eq_bind, Option.bind_some]
    rw [if_pos (.inr hne)]
  · have hread : readAt order i = some (-1) := by
      rw [readAt_natCast, h.of_dead i hi hal]
    unfold nmsVisit
    simp only [hread, hclass, Option.bind_eq_bind, Option.bind_some, true_or, if_true]

/-! ## The passes in ascending class order -/

@[simp] theorem mem_classSet {classId : List ℤ} {c : ℤ} : c ∈ classSet classId ↔ c ∈ classId := by
  unfold classSet
  rw [List.mem_insertionSort, List.mem_dedup]

theorem classSet_sorted (classId : List ℤ) : (classSet classId).Pairwise (· < ·) := by
  have hle : (classSet classId).Pairwise (· ≤ ·) := List.pairwise_insertionSort (· ≤ ·) _
  have hne : (classSet classId).Pairwise (· ≠ ·) :=
    (List.perm_insertionSort (· ≤ ·) _).symm.nodup (List.nodup_dedup classId)
  exact (hle.and hne).imp fun h => lt_of_le_of_ne h.1 h.2

theorem cls_mem_classSet {k : ℕ} (hk : k < d.validCount) :
    (d.candidate k).cls ∈ classSet d.classId :=
  mem_classSet.mpr (List.mem_of_getElem? (Candidates.classId_getElem? hk))

theorem visited_iff_turnBefore {done rest : List ℤ} {c : ℤ} {i k : ℕ}
    (hset : classSet d.classId = done ++ c :: rest) (hi : i < d.validCount) (hki : k < i)
    (hc : (d.candidate i).cls = c) : Visited d done c i k ↔ TurnBefore d k i := by
  have hsorted := classSet_sorted d.classId
  rw [hset, List.pairwise_append, List.pairwise_cons] at hsorted
  obtain ⟨-, ⟨hrest, -⟩, hdone⟩ := hsorted
  unfold TurnBefore
  rw [hc]
  constructor
  · rintro (hmem | ⟨heq, -⟩)
    · exact (hdone _ hmem c (by simp)).le
    · exact heq.le
  · intro hle
    have hmem := cls_mem_classSet (d := d) (k := k) (by omega)
    rw [hset, List.mem_append, List.mem_cons] at hmem
    rcases hmem with hmem | heq | hmem
    · exact .inl hmem
    · exact .inr ⟨heq, hki⟩
    · exact absurd hle (not_le.mpr (hrest _ hmem))

theorem standingAfter_iff_effective (threshold : ℚ) (rank : ℕ → ℕ) {done rest : List ℤ} {c : ℤ}
    {i : ℕ}
    (hset : classSet d.classId = done ++ c :: rest) (hi : i < d.validCount)
    (hc : (d.candidate i).cls = c) :
    StandingAfter d threshold rank (Visited d done c i) i ↔
      Effective (TurnBefore d) (Hits d threshold rank) i := by
  rw [effective_iff]
  constructor
  · intro h k hki hturn
    exact h k hki ((visited_iff_turnBefore hset hi hki hc).mpr hturn)
  · intro h k hki hvisited
    exact h k hki ((visited_iff_turnBefore hset hi hki hc).mp hvisited)

theorem standingAfter_visit {done : List ℤ} {c : ℤ} {i j : ℕ} (hc : (d.candidate i).cls = c)
    (heff : Effective (TurnBefore d) (Hits d threshold rank) i) :
    (StandingAfter d threshold rank (Visited d done c i) j ∧
        ¬ (i < j ∧ Hits d threshold rank i j)) ↔
      StandingAfter d threshold rank (Visited d done c (i + 1)) j := by
  constructor
  · rintro ⟨hbefore, hnow⟩ k hkj hvisited hhit
    by_cases hki : k = i
    · subst hki
      exact absurd ⟨hkj, hhit⟩ hnow
    · exact hbefore k hkj (hvisited.imp id fun h => ⟨h.1, by omega⟩) hhit
  · intro h
    constructor
    · intro k hkj hvisited
      exact h k hkj (hvisited.imp id fun hv => ⟨hv.1, by omega⟩)
    · rintro ⟨hij, hhit⟩
      exact h i hij (.inr ⟨hc, Nat.lt_succ_self i⟩) hhit heff

theorem standingAfter_skip {done : List ℤ} {c : ℤ} {i j : ℕ}
    (hskip : ¬ Effective (TurnBefore d) (Hits d threshold rank) i ∨ (d.candidate i).cls ≠ c) :
    StandingAfter d threshold rank (Visited d done c i) j ↔
      StandingAfter d threshold rank (Visited d done c (i + 1)) j := by
  constructor
  · intro h k hkj hvisited hhit
    rcases hvisited with hdone | ⟨hck, hki⟩
    · exact h k hkj (.inl hdone) hhit
    · by_cases heq : k = i
      · subst heq
        exact hskip.resolve_right (not_not_intro hck)
      · exact h k hkj (.inr ⟨hck, by omega⟩) hhit
  · exact fun h k hkj hvisited => h k hkj (hvisited.imp id fun hv => ⟨hv.1, by omega⟩)

theorem nms_spec (threshold : ℚ) {done rest : List ℤ} {c : ℤ} {order : List ℤ}
    (hrank : ∀ k < d.validCount, rank k < d.validCount)
    (hset : classSet d.classId = done ++ c :: rest)
    (h : Marks d rank (StandingAfter d threshold rank (Visited d done c 0)) order) :
    ∃ order', nms d.validCount d.filterBoxes d.classId order c threshold = some order' ∧
      Marks d rank (StandingAfter d threshold rank (Visited d done c d.validCount)) order' := by
  have hrule := foldlM_range_rule 0 d.validCount
    (f := nmsVisit d.validCount d.filterBoxes d.classId c threshold) (s := order)
    (fun i order => Marks d rank (StandingAfter d threshold rank (Visited d done c i)) order) h ?_
  · simpa only [nms, Nat.zero_add] using hrule
  · intro i order _ hi hmarks
    rw [Nat.zero_add] at hi
    by_cases hc : (d.candidate i).cls = c
    · have hturn := standingAfter_iff_effective threshold rank hset hi hc
      by_cases heff : Effective (TurnBefore d) (Hits d threshold rank) i
      · obtain ⟨order', hvisit, hmarks'⟩ :=
          nmsVisit_alive threshold hrank hi hc (hturn.mpr heff) hmarks
        exact ⟨order', hvisit, hmarks'.congr fun k _ => standingAfter_visit hc heff⟩
      · exact ⟨order, nmsVisit_skip hi (.inl fun hal => heff (hturn.mp hal)) hmarks,
          hmarks.congr fun k _ => standingAfter_skip (.inl heff)⟩
    · exact ⟨order, nmsVisit_skip hi (.inr hc) hmarks,
        hmarks.congr fun k _ => standingAfter_skip (.inr hc)⟩

/-- **The passes compute a suppression by turns.**  Started on the ranked candidate
indices, they leave exactly the standing positions. -/
theorem suppress_spec (threshold : ℚ) {order : List ℤ}
    (hrank : ∀ k < d.validCount, rank k < d.validCount)
    (h : Marks d rank (fun _ => True) order) :
    ∃ order', suppress d threshold order = some order' ∧
      Marks d rank (Standing (TurnBefore d) (Hits d threshold rank)) order' := by
  obtain ⟨order', hfold, hmarks⟩ := foldlM_list_rule (l := classSet d.classId)
    (f := fun order c => nms d.validCount d.filterBoxes d.classId order c threshold) (s := order)
    (fun done order => Marks d rank
      (StandingAfter d threshold rank fun k => (d.candidate k).cls ∈ done) order)
    (h.congr fun k _ => ⟨fun _ i _ hmem => absurd hmem List.not_mem_nil, fun _ => trivial⟩)
    (by
      intro done c rest order hset hmarks
      obtain ⟨order', hnms, hmarks'⟩ := nms_spec threshold hrank hset
        (hmarks.congr fun k _ => by simp [StandingAfter, Visited])
      refine ⟨order', hnms, ?_⟩
      apply hmarks'.congr
      intro k hk
      constructor
      · intro hstand i hik hmem hhit
        rw [List.mem_append, List.mem_singleton] at hmem
        exact hstand i hik (hmem.imp id fun hc => ⟨hc, by omega⟩) hhit
      · intro hstand i hik hvisited hhit
        have hmem : (d.candidate i).cls ∈ done ++ [c] := by
          rw [List.mem_append, List.mem_singleton]
          exact hvisited.imp id fun hc => hc.1
        exact hstand i hik hmem hhit)
  refine ⟨order', hfold, ?_⟩
  apply hmarks.congr
  intro j hj
  constructor
  · intro hstand i hij hhit
    exact hstand i hij (cls_mem_classSet (by omega)) hhit
  · intro hstand i hij _ hhit
    exact hstand i hij hhit

end Passes

end CatDect.Postprocess
