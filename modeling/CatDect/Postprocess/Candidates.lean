import CatDect.Support.CheckedVec
import CatDect.Support.Truncate
import Mathlib.Data.List.GetD

/-!
# Candidates and result lists

The data `post_process` works on: the three vectors the decoders append to, and
the `object_detect_result_list` it fills.  Scores and boxes are exact rationals.
-/

namespace CatDect.Postprocess

def objNumbMaxSize : ℕ := 128

def objClassNum : ℕ := 80

def propBoxSize : ℕ := 5 + objClassNum

structure ImageRect where
  left : ℤ
  top : ℤ
  right : ℤ
  bottom : ℤ
deriving DecidableEq, Repr

structure ObjectDetectResult where
  box : ImageRect
  prop : ℚ
  clsId : ℤ
deriving DecidableEq, Repr

/-- `object_detect_result_list`; no list counts more entries than its table has. -/
structure ObjectDetectResultList where
  id : ℤ
  count : ℤ
  results : Vector ObjectDetectResult objNumbMaxSize
  count_le : count ≤ objNumbMaxSize
deriving DecidableEq

namespace ObjectDetectResultList

def zeroEntry : ObjectDetectResult := ⟨⟨0, 0, 0, 0⟩, 0, 0⟩

/-- The list after `memset(od_results, 0, sizeof(object_detect_result_list))`. -/
def zero : ObjectDetectResultList where
  id := 0
  count := 0
  results := Vector.replicate _ zeroEntry
  count_le := by decide

/-- The entries a reader of the list visits: `results[0 .. count)`. -/
def reported (l : ObjectDetectResultList) : List ObjectDetectResult :=
  l.results.toList.take l.count.toNat

/-- Nothing but the counted entries differs from the cleared list. -/
structure Fresh (l : ObjectDetectResultList) : Prop where
  id_eq : l.id = 0
  count_nonneg : 0 ≤ l.count
  rest_eq : l.results.toList.drop l.count.toNat =
    List.replicate (objNumbMaxSize - l.count.toNat) zeroEntry

theorem Fresh.zero : zero.Fresh := ⟨rfl, le_rfl, by decide⟩

theorem reported_length {l : ObjectDetectResultList} (h : 0 ≤ l.count) :
    (l.reported.length : ℤ) = l.count := by
  have := l.count_le
  unfold reported
  rw [List.length_take, Vector.length_toList]
  omega

theorem Fresh.ext {l l' : ObjectDetectResultList} (h : l.Fresh) (h' : l'.Fresh)
    (heq : l.reported = l'.reported) : l = l' := by
  have hcount : l.count = l'.count := by
    rw [← reported_length h.count_nonneg, ← reported_length h'.count_nonneg, heq]
  have hresults : l.results.toList = l'.results.toList := by
    calc l.results.toList
        = l.reported ++ l.results.toList.drop l.count.toNat := (List.take_append_drop _ _).symm
      _ = l'.reported ++ l'.results.toList.drop l'.count.toNat := by
          rw [heq, h.rest_eq, h'.rest_eq, hcount]
      _ = l'.results.toList := List.take_append_drop _ _
  have hid : l.id = l'.id := h.id_eq.trans h'.id_eq.symm
  clear h h' heq
  cases l
  cases l'
  simp only [mk.injEq]
  exact ⟨hid, hcount, Vector.toList_inj.mp hresults⟩

end ObjectDetectResultList

/-- `clamp`: the value is truncated because the function returns an `int`. -/
def clamp (val : ℚ) (min max : ℤ) : ℤ :=
  if val > min then (if val < max then Support.truncate val else max) else min

theorem clamp_mem {val : ℚ} {max : ℤ} (hmax : 0 ≤ max) :
    0 ≤ clamp val 0 max ∧ clamp val 0 max ≤ max := by
  unfold clamp
  split_ifs with hpos hlt
  · rw [Int.cast_zero] at hpos
    exact ⟨Support.truncate_nonneg hpos.le, Support.truncate_le_of_le hpos.le hlt.le⟩
  · exact ⟨hmax, le_rfl⟩
  · exact ⟨le_rfl, hmax⟩

theorem clamp_mono {p q : ℚ} {max : ℤ} (hmax : 0 ≤ max) (hpq : p ≤ q) :
    clamp p 0 max ≤ clamp q 0 max := by
  by_cases hp : 0 < p
  · have hq : 0 < q := hp.trans_le hpq
    unfold clamp
    rw [Int.cast_zero, if_pos hp, if_pos hq]
    split_ifs with h1 h2 h2
    · exact Support.truncate_mono_of_nonneg hp.le hpq
    · exact Support.truncate_le_of_le hp.le h1.le
    · exact absurd (hpq.trans_lt h2) h1
    · exact le_rfl
  · have hzero : clamp p 0 max = 0 := by
      unfold clamp
      rw [Int.cast_zero, if_neg hp]
    rw [hzero]
    exact (clamp_mem hmax).1

/-! ## The decoded candidates -/

structure Candidate where
  x : ℚ
  y : ℚ
  w : ℚ
  h : ℚ
  score : ℚ
  cls : ℤ
deriving DecidableEq, Repr

/-- The outcome of the decode calls of `post_process`: the vectors they append to and
the number of appends.  Every append adds four box values, one score and one class. -/
structure Candidates where
  validCount : ℕ
  filterBoxes : List ℚ
  objProbs : List ℚ
  classId : List ℤ
  filterBoxes_length : filterBoxes.length = 4 * validCount
  objProbs_length : objProbs.length = validCount
  classId_length : classId.length = validCount

namespace Candidates

def empty : Candidates := ⟨0, [], [], [], rfl, rfl, rfl⟩

def push (d : Candidates) (c : Candidate) : Candidates where
  validCount := d.validCount + 1
  filterBoxes := d.filterBoxes ++ [c.x, c.y, c.w, c.h]
  objProbs := d.objProbs ++ [c.score]
  classId := d.classId ++ [c.cls]
  filterBoxes_length := by
    rw [List.length_append, d.filterBoxes_length]
    rfl
  objProbs_length := by rw [List.length_append, d.objProbs_length, List.length_singleton]
  classId_length := by rw [List.length_append, d.classId_length, List.length_singleton]

def ofList (l : List Candidate) : Candidates := l.foldl push empty

def candidate (d : Candidates) (n : ℕ) : Candidate where
  x := d.filterBoxes.getD (4 * n) 0
  y := d.filterBoxes.getD (4 * n + 1) 0
  w := d.filterBoxes.getD (4 * n + 2) 0
  h := d.filterBoxes.getD (4 * n + 3) 0
  score := d.objProbs.getD n 0
  cls := d.classId.getD n 0

def toList (d : Candidates) : List Candidate := (List.range d.validCount).map d.candidate

variable {d : Candidates} {n : ℕ}

theorem getElem?_of_lt {α : Type} {v : List α} (z : α) (h : n < v.length) :
    v[n]? = some (v.getD n z) := by
  rw [List.getD_eq_getElem?_getD, List.getElem?_eq_getElem h, Option.getD_some]

theorem objProbs_getElem? (h : n < d.validCount) :
    d.objProbs[n]? = some (d.candidate n).score :=
  getElem?_of_lt 0 (by rw [d.objProbs_length]; exact h)

theorem classId_getElem? (h : n < d.validCount) :
    d.classId[n]? = some (d.candidate n).cls :=
  getElem?_of_lt 0 (by rw [d.classId_length]; exact h)

theorem readAt_filterBoxes (h : n < d.validCount) :
    Support.readAt d.filterBoxes ((n : ℤ) * 4 + 0) = some (d.candidate n).x ∧
      Support.readAt d.filterBoxes ((n : ℤ) * 4 + 1) = some (d.candidate n).y ∧
      Support.readAt d.filterBoxes ((n : ℤ) * 4 + 2) = some (d.candidate n).w ∧
      Support.readAt d.filterBoxes ((n : ℤ) * 4 + 3) = some (d.candidate n).h := by
  have hread : ∀ k < 4, Support.readAt d.filterBoxes ((n : ℤ) * 4 + (k : ℕ)) =
      some (d.filterBoxes.getD (4 * n + k) 0) := by
    intro k hk
    have hcast : (n : ℤ) * 4 + (k : ℕ) = ((4 * n + k : ℕ) : ℤ) := by push_cast; ring
    rw [hcast, Support.readAt_natCast]
    exact getElem?_of_lt 0 (by rw [d.filterBoxes_length]; omega)
  exact ⟨hread 0 (by omega), hread 1 (by omega), hread 2 (by omega), hread 3 (by omega)⟩

theorem candidate_push_of_lt (c : Candidate) (h : n < d.validCount) :
    (d.push c).candidate n = d.candidate n := by
  have hb := d.filterBoxes_length
  have hs := d.objProbs_length
  have hc := d.classId_length
  simp only [candidate, push]
  rw [List.getD_append _ _ _ _ (by omega), List.getD_append _ _ _ _ (by omega),
    List.getD_append _ _ _ _ (by omega), List.getD_append _ _ _ _ (by omega),
    List.getD_append _ _ _ _ (by omega), List.getD_append _ _ _ _ (by omega)]

theorem candidate_push_self (d : Candidates) (c : Candidate) :
    (d.push c).candidate d.validCount = c := by
  have hnew : ∀ {α : Type} (v w : List α) (z : α) (i k : ℕ), i = v.length + k →
      (v ++ w).getD i z = w.getD k z := by
    intro α v w z i k hi
    rw [List.getD_append_right _ _ _ _ (by omega), hi, Nat.add_sub_cancel_left]
  have hb := d.filterBoxes_length
  have hs := d.objProbs_length
  have hc := d.classId_length
  simp only [candidate, push]
  rw [hnew _ _ _ _ 0 (by omega), hnew _ _ _ _ 1 (by omega), hnew _ _ _ _ 2 (by omega),
    hnew _ _ _ _ 3 (by omega), hnew _ _ _ _ 0 (by omega), hnew _ _ _ _ 0 (by omega)]
  rfl

@[simp] theorem toList_push (d : Candidates) (c : Candidate) :
    (d.push c).toList = d.toList ++ [c] := by
  have hcount : (d.push c).validCount = d.validCount + 1 := rfl
  unfold toList
  rw [hcount, List.range_succ, List.map_append, List.map_singleton, candidate_push_self]
  congr 1
  apply List.map_congr_left
  intro i hi
  exact candidate_push_of_lt c (List.mem_range.mp hi)

theorem candidate_mem_toList (h : n < d.validCount) : d.candidate n ∈ d.toList :=
  List.mem_map.mpr ⟨n, List.mem_range.mpr h, rfl⟩

@[simp] theorem toList_length (d : Candidates) : d.toList.length = d.validCount := by
  simp [toList]

end Candidates

end CatDect.Postprocess
