import CatDect.Postprocess.IndexSort

/-!
# The sort as its callers see it

`quick_sort_indice_inverse` on any range of any two vectors of one length: it returns, it
leaves the rest of the vectors alone, and the pairs of the range come out in non-increasing
order of their keys.  That it does not look outside the range either is said by running it
on the range alone, where every other access would fail.
-/

namespace CatDect.Postprocess.IndexSort

open CatDect.Support

variable {α : Type} [LinearOrder α]

/-! ## More fuel -/

theorem quickSortIndiceInverse_succ {fuel : ℕ} {input input' : List α}
    {indices indices' : List ℤ} {left right : ℤ}
    (h : quickSortIndiceInverse fuel input left right indices = some (input', indices')) :
    quickSortIndiceInverse (fuel + 1) input left right indices = some (input', indices') := by
  induction fuel generalizing input input' indices indices' left right with
  | zero => exact absurd h (by simp [quickSortIndiceInverse])
  | succ fuel ih =>
      rw [quickSortIndiceInverse] at h ⊢
      by_cases hlt : left < right
      · rw [if_pos hlt] at h ⊢
        simp only [Option.bind_eq_bind, Option.bind_eq_some_iff] at h ⊢
        obtain ⟨keyIndex, hki, key, hk, st, hloop, v, hv, w, hw, ⟨v₁, w₁⟩, hfirst, hsecond⟩ := h
        exact ⟨keyIndex, hki, key, hk, st, hloop, v, hv, w, hw, (v₁, w₁), ih hfirst, ih hsecond⟩
      · rw [if_neg hlt] at h ⊢
        exact h

theorem quickSortIndiceInverse_mono {fuel fuel' : ℕ} (hle : fuel ≤ fuel')
    {input input' : List α} {indices indices' : List ℤ} {left right : ℤ}
    (h : quickSortIndiceInverse fuel input left right indices = some (input', indices')) :
    quickSortIndiceInverse fuel' input left right indices = some (input', indices') := by
  induction fuel', hle using Nat.le_induction with
  | base => exact h
  | succ _ _ ih => exact quickSortIndiceInverse_succ ih

/-! ## The range as a part of larger vectors -/

section Window

variable {pre post v v' : List α} {preI postI w w' : List ℤ} {key : α}

theorem scanHigh_window {low high h : ℤ} {fuel : ℕ}
    (hscan : scanHigh v key low fuel high = some h) :
    scanHigh (pre ++ v ++ post) key (pre.length + low) fuel (pre.length + high) =
      some (pre.length + h) := by
  induction fuel generalizing high with
  | zero => exact absurd hscan (by simp [scanHigh])
  | succ fuel ih =>
      rw [scanHigh] at hscan ⊢
      by_cases hlt : low < high
      · rw [if_pos hlt] at hscan
        rw [if_pos (by omega)]
        obtain ⟨x, hx, hscan⟩ := Option.bind_eq_some_iff.mp hscan
        rw [readAt_window hx, Option.bind_eq_bind, Option.bind_some]
        by_cases hxk : x ≤ key
        · rw [if_pos hxk] at hscan ⊢
          rw [← ih hscan, Int.add_sub_assoc]
        · rw [if_neg hxk] at hscan ⊢
          rw [← Option.some.inj hscan]
      · rw [if_neg hlt] at hscan
        rw [if_neg (by omega), ← Option.some.inj hscan]

theorem scanLow_window {low high l : ℤ} {fuel : ℕ}
    (hscan : scanLow v key high fuel low = some l) :
    scanLow (pre ++ v ++ post) key (pre.length + high) fuel (pre.length + low) =
      some (pre.length + l) := by
  induction fuel generalizing low with
  | zero => exact absurd hscan (by simp [scanLow])
  | succ fuel ih =>
      rw [scanLow] at hscan ⊢
      by_cases hlt : low < high
      · rw [if_pos hlt] at hscan
        rw [if_pos (by omega)]
        obtain ⟨x, hx, hscan⟩ := Option.bind_eq_some_iff.mp hscan
        rw [readAt_window hx, Option.bind_eq_bind, Option.bind_some]
        by_cases hxk : key ≤ x
        · rw [if_pos hxk] at hscan ⊢
          rw [← ih hscan, Int.add_assoc]
        · rw [if_neg hxk] at hscan ⊢
          rw [← Option.some.inj hscan]
      · rw [if_neg hlt] at hscan
        rw [if_neg (by omega), ← Option.some.inj hscan]

omit [LinearOrder α] in
theorem moveCell_window (hpre : preI.length = pre.length) {dst src : ℤ}
    (hmove : moveCell v w dst src = some (v', w')) :
    moveCell (pre ++ v ++ post) (preI ++ w ++ postI) (pre.length + dst) (pre.length + src) =
      some (pre ++ v' ++ post, preI ++ w' ++ postI) := by
  simp only [moveCell, Option.bind_eq_bind, Option.bind_eq_some_iff] at hmove ⊢
  obtain ⟨x, hx, v₁, hv₁, n, hn, w₁, hw₁, heq⟩ := hmove
  obtain ⟨rfl, rfl⟩ := Prod.mk.inj (Option.some.inj heq)
  refine ⟨x, readAt_window hx, _, writeAt_window hv₁, n, ?_, _, ?_, rfl⟩
  · rw [← hpre]
    exact readAt_window hn
  · rw [← hpre]
    exact writeAt_window hw₁

def PartitionState.shift (pre post : List α) (preI postI : List ℤ) (st : PartitionState α) :
    PartitionState α where
  input := pre ++ st.input ++ post
  indices := preI ++ st.indices ++ postI
  low := pre.length + st.low
  high := pre.length + st.high

theorem partitionRound_window (hpre : preI.length = pre.length) {st st' : PartitionState α}
    (hround : partitionRound key st = some st') :
    partitionRound key (st.shift pre post preI postI) =
      some (st'.shift pre post preI postI) := by
  simp only [partitionRound, Option.bind_eq_bind, Option.bind_eq_some_iff] at hround ⊢
  obtain ⟨h, hscan, ⟨v₁, w₁⟩, hmove, l, hscan', ⟨v₂, w₂⟩, hmove', heq⟩ := hround
  have hfuel : (pre.length + st.high - (pre.length + st.low) : ℤ) = st.high - st.low := by omega
  have hfuel' : (pre.length + h - (pre.length + st.low) : ℤ) = h - st.low := by omega
  rw [← Option.some.inj heq]
  refine ⟨pre.length + h, ?_, _, moveCell_window hpre hmove, pre.length + l, ?_, _,
    moveCell_window hpre hmove', rfl⟩
  · show scanHigh _ key _ ((pre.length + st.high - (pre.length + st.low) : ℤ).toNat + 1) _ = _
    rw [hfuel]
    exact scanHigh_window hscan
  · show scanLow _ key _ ((pre.length + h - (pre.length + st.low) : ℤ).toNat + 1) _ = _
    rw [hfuel']
    exact scanLow_window hscan'

theorem partitionLoop_window (hpre : preI.length = pre.length) {fuel : ℕ}
    {st st' : PartitionState α} (hloop : partitionLoop key fuel st = some st') :
    partitionLoop key fuel (st.shift pre post preI postI) =
      some (st'.shift pre post preI postI) := by
  induction fuel generalizing st with
  | zero => exact absurd hloop (by simp [partitionLoop])
  | succ fuel ih =>
      rw [partitionLoop] at hloop ⊢
      have hiff : (st.shift pre post preI postI).low < (st.shift pre post preI postI).high ↔
          st.low < st.high := Int.add_lt_add_iff_left _
      by_cases hlt : st.low < st.high
      · rw [if_pos hlt] at hloop
        rw [if_pos (hiff.mpr hlt)]
        obtain ⟨st₁, hround, hloop⟩ := Option.bind_eq_some_iff.mp hloop
        rw [partitionRound_window hpre hround, Option.bind_eq_bind, Option.bind_some]
        exact ih hloop
      · rw [if_neg hlt] at hloop
        rw [if_neg (hiff.not.mpr hlt), ← Option.some.inj hloop]

theorem quickSortIndiceInverse_window (post : List α) (postI : List ℤ)
    (hpre : preI.length = pre.length) {fuel : ℕ} {left right : ℤ}
    (hsort : quickSortIndiceInverse fuel v left right w = some (v', w')) :
    quickSortIndiceInverse fuel (pre ++ v ++ post) (pre.length + left) (pre.length + right)
      (preI ++ w ++ postI) = some (pre ++ v' ++ post, preI ++ w' ++ postI) := by
  induction fuel generalizing v v' w w' left right with
  | zero => exact absurd hsort (by simp [quickSortIndiceInverse])
  | succ fuel ih =>
      rw [quickSortIndiceInverse] at hsort ⊢
      by_cases hlt : left < right
      · rw [if_pos hlt] at hsort
        rw [if_pos (by omega)]
        simp only [Option.bind_eq_bind, Option.bind_eq_some_iff] at hsort ⊢
        obtain ⟨keyIndex, hki, key, hk, st, hloop, v₁, hv₁, w₁, hw₁, ⟨v₂, w₂⟩, hfirst,
          hsecond⟩ := hsort
        have hfuel : (pre.length + right - (pre.length + left) : ℤ) = right - left := by omega
        have hstart : (⟨pre ++ v ++ post, preI ++ w ++ postI, pre.length + left,
            pre.length + right⟩ : PartitionState α) =
            PartitionState.shift pre post preI postI ⟨v, w, left, right⟩ := rfl
        refine ⟨keyIndex, ?_, key, readAt_window hk, st.shift pre post preI postI, ?_, _,
          writeAt_window hv₁, preI ++ w₁ ++ postI, ?_, (pre ++ v₂ ++ post, preI ++ w₂ ++ postI),
          ?_, ?_⟩
        · rw [← hpre]
          exact readAt_window hki
        · rw [hfuel, hstart]
          exact partitionLoop_window hpre hloop
        · show writeAt _ (pre.length + st.low) _ = _
          rw [← hpre]
          exact writeAt_window hw₁
        · show quickSortIndiceInverse _ _ _ (pre.length + st.low - 1) _ = _
          rw [Int.add_sub_assoc]
          exact ih hfirst
        · show quickSortIndiceInverse _ _ (pre.length + st.low + 1) _ _ = _
          rw [Int.add_assoc]
          exact ih hsecond
      · rw [if_neg hlt] at hsort
        obtain ⟨hv, hw⟩ := Prod.mk.inj (Option.some.inj hsort)
        rw [if_neg (by omega), hv, hw]

end Window

/-! ## The pairs of a range -/

section Range

variable {input input' : List α} {indices indices' : List ℤ} {left right : ℤ}

def slice {β : Type} (left right : ℤ) (v : List β) : List β :=
  (v.drop left.toNat).take (right - left + 1).toNat

def pairsOn (left right : ℤ) (input : List α) (indices : List ℤ) : List (α × ℤ) :=
  (slice left right input).zip (slice left right indices)

structure SortsRange (left right : ℤ) (input input' : List α) (indices indices' : List ℤ) :
    Prop where
  input_length : input'.length = input.length
  indices_length : indices'.length = indices.length
  untouched : ∀ i, i < left ∨ right < i →
    readAt input' i = readAt input i ∧ readAt indices' i = readAt indices i
  sorted : SortedOn left right input'
  pairs_perm : (pairsOn left right input' indices').Perm (pairsOn left right input indices)

theorem split_slice {β : Type} {v : List β} (h0 : 0 ≤ left) (hle : left ≤ right) :
    v = v.take left.toNat ++ slice left right v ++ v.drop (right + 1).toNat := by
  have hrest : v.drop (right + 1).toNat =
      (v.drop left.toNat).drop (right - left + 1).toNat := by
    rw [List.drop_drop]
    congr 1
    omega
  rw [hrest, List.append_assoc, slice, List.take_append_drop, List.take_append_drop]

theorem slice_length {β : Type} {v : List β} (h0 : 0 ≤ left) (hright : right < v.length) :
    (slice left right v).length = (right - left + 1).toNat := by
  unfold slice
  rw [List.length_take, List.length_drop]
  omega

theorem slice_window {β : Type} {pre v post : List β} (hpre : pre.length = left.toNat)
    (hv : v.length = (right - left + 1).toNat) : slice left right (pre ++ v ++ post) = v := by
  unfold slice
  rw [List.append_assoc, List.drop_left' hpre, List.take_left' hv]

omit [LinearOrder α] in
theorem zip_perm {n : ℕ} (hn : input.length = n) (hn' : input'.length = n)
    (hm : indices.length = n) (hm' : indices'.length = n)
    (h : RearrangedOn 0 (n - 1) (cells input indices) (cells input' indices')) :
    (input'.zip indices').Perm (input.zip indices) := by
  have hlen : (input.zip indices).length = n := by
    rw [List.length_zip]
    omega
  have hlen' : (input'.zip indices').length = n := by
    rw [List.length_zip]
    omega
  have hread : ∀ (v : List α) (w : List ℤ), readAt (v.zip w) = fun i =>
      (cells v w i).1.bind fun x => (cells v w i).2.map fun n => (x, n) := by
    intro v w
    funext i
    exact readAt_zip v w i
  apply RearrangedOn.list_perm (hlen'.trans hlen.symm)
  rw [hread, hread, hlen]
  exact h.map fun c => c.1.bind fun x => c.2.map fun n => (x, n)

theorem slice_of_sort (h0 : 0 ≤ left) (hle : left ≤ right) (hright : right < input.length)
    (hlen : indices.length = input.length) {fuel : ℕ}
    (hsort : quickSortIndiceInverse fuel input left right indices = some (input', indices'))
    {v : List α} {w : List ℤ} (hv : v.length = (right - left + 1).toNat)
    (hw : w.length = (right - left + 1).toNat)
    (hpart : quickSortIndiceInverse fuel (slice left right input) 0 (right - left)
      (slice left right indices) = some (v, w)) :
    slice left right input' = v ∧ slice left right indices' = w := by
  have hpre : (input.take left.toNat).length = left.toNat := by
    rw [List.length_take]
    omega
  have hpreI : (indices.take left.toNat).length = left.toNat := by
    rw [List.length_take]
    omega
  have hwhole := quickSortIndiceInverse_window (input.drop (right + 1).toNat)
    (indices.drop (right + 1).toNat) (hpreI.trans hpre.symm) hpart
  have hleft : ((input.take left.toNat).length : ℤ) + 0 = left := by omega
  have hend : ((input.take left.toNat).length : ℤ) + (right - left) = right := by omega
  rw [← split_slice h0 hle, ← split_slice h0 hle, hleft, hend, hsort] at hwhole
  obtain ⟨hinput', hindices'⟩ := Prod.mk.inj (Option.some.inj hwhole)
  rw [hinput', hindices']
  exact ⟨slice_window hpre hv, slice_window hpreI hw⟩

/-- **The sort.**  On any range of any two vectors of one length it returns, whatever bounds
its recursion from a certain depth on; it does what it does to the range alone; and it
sorts the pairs of the range by their keys. -/
theorem quickSortIndiceInverse_sorts (hlen : indices.length = input.length) (h0 : 0 ≤ left)
    (hright : right < input.length) :
    ∃ input' indices', SortsRange left right input input' indices indices' ∧
      ∀ fuel : ℕ, 0 < fuel → right - left < fuel →
        quickSortIndiceInverse fuel input left right indices = some (input', indices') ∧
        quickSortIndiceInverse fuel (slice left right input) 0 (right - left)
          (slice left right indices) =
            some (slice left right input', slice left right indices') := by
  rcases lt_or_ge right left with hempty | hle
  · refine ⟨input, indices, ⟨rfl, rfl, fun _ _ => ⟨rfl, rfl⟩, ?_, List.Perm.refl _⟩, ?_⟩
    · intro i j x y hi hij hj
      omega
    · intro fuel hfuel _
      obtain ⟨fuel, rfl⟩ := Nat.exists_eq_add_of_lt hfuel
      rw [quickSortIndiceInverse, quickSortIndiceInverse, if_neg (by omega), if_neg (by omega)]
      exact ⟨rfl, rfl⟩
  · -- the least fuel for which the recursion ends
    have hdepth : 0 < (right - left + 1).toNat := by omega
    have hin := slice_length h0 hright
    have hix := slice_length (v := indices) h0 (by omega : right < indices.length)
    obtain ⟨input', indices', hsort, hl, hl', hre, hsorted⟩ :=
      quickSortIndiceInverse_spec rfl hlen h0 hright (by omega) hdepth
    obtain ⟨v, w, hpart, hv, hw, hrev, -⟩ :=
      quickSortIndiceInverse_spec hin hix (le_refl (0 : ℤ)) (by omega : right - left < _)
        (by omega) hdepth
    obtain ⟨hslice, hsliceI⟩ := slice_of_sort h0 hle hright hlen hsort hv hw hpart
    refine ⟨input', indices', ⟨hl, hl'.trans hlen.symm, ?_, hsorted, ?_⟩, ?_⟩
    · intro i hi
      have hcell := hre.frame hi
      exact ⟨congrArg Prod.fst hcell, congrArg Prod.snd hcell⟩
    · unfold pairsOn
      rw [hslice, hsliceI]
      have hup : ((right - left + 1).toNat : ℤ) - 1 = right - left := by omega
      apply zip_perm hin hv hix hw
      rw [hup]
      exact hrev
    · intro fuel _ hfuel
      have hmore : (right - left + 1).toNat ≤ fuel := by omega
      rw [hslice, hsliceI]
      exact ⟨quickSortIndiceInverse_mono hmore hsort, quickSortIndiceInverse_mono hmore hpart⟩

end Range

theorem quickSortIndiceInverse_sorts_equalKeys :
    ∃ input' indices', SortsRange 1 3 [9, 2, 2, 5, 9] input' [4, 3, 2, 1, 0] indices' ∧
      ∀ fuel : ℕ, 0 < fuel → 3 - 1 < (fuel : ℤ) →
        quickSortIndiceInverse fuel [9, 2, 2, 5, 9] 1 3 [4, 3, 2, 1, 0] =
          some (input', indices') ∧
        quickSortIndiceInverse fuel (slice 1 3 [9, 2, 2, 5, 9]) 0 (3 - 1)
          (slice 1 3 [4, 3, 2, 1, 0]) = some (slice 1 3 input', slice 1 3 indices') :=
  quickSortIndiceInverse_sorts rfl (by decide) (by decide)

end CatDect.Postprocess.IndexSort
