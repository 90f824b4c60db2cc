import CatDect.Support.CheckedVec
import Mathlib.Data.Int.Order.Basic
import Mathlib.Data.Nat.Basic
import Mathlib.Order.Lattice

/-!
# The in-place sort of the candidates

`quick_sort_indice_inverse` sorts the scores into non-increasing order and moves
the candidate indices along.  Its partition is hole-based: the pivot pair is kept
in `key` and `key_index` while the cell at `low` is free to be overwritten, so in
the middle of a round one pair is present twice and the pivot pair is missing.

The loop invariant `PartInv` therefore speaks about the vectors *with the hole
filled*: these are always a rearrangement of the vectors the sort was given.
-/

namespace CatDect.Postprocess.IndexSort

open CatDect.Support

variable {α : Type} [LinearOrder α]

/-! ## The code -/

/-- `while (low < high && input[high] <= key) high--;` -/
def scanHigh (input : List α) (key : α) (low : ℤ) : ℕ → ℤ → Option ℤ
  | 0, _ => none
  | fuel + 1, high =>
      if low < high then do
        let x ← readAt input high
        if x ≤ key then scanHigh input key low fuel (high - 1) else some high
      else some high

/-- `while (low < high && input[low] >= key) low++;` -/
def scanLow (input : List α) (key : α) (high : ℤ) : ℕ → ℤ → Option ℤ
  | 0, _ => none
  | fuel + 1, low =>
      if low < high then do
        let x ← readAt input low
        if key ≤ x then scanLow input key high fuel (low + 1) else some low
      else some low

/-- The locals of `quick_sort_indice_inverse` that its outer loop changes. -/
structure PartitionState (α : Type) where
  input : List α
  indices : List ℤ
  low : ℤ
  high : ℤ
deriving Repr

/-- `input[dst] = input[src]; indices[dst] = indices[src];` -/
def moveCell (input : List α) (indices : List ℤ) (dst src : ℤ) :
    Option (List α × List ℤ) := do
  let x ← readAt input src
  let input' ← writeAt input dst x
  let n ← readAt indices src
  let indices' ← writeAt indices dst n
  some (input', indices')

def partitionRound (key : α) (st : PartitionState α) : Option (PartitionState α) := do
  let high ← scanHigh st.input key st.low ((st.high - st.low).toNat + 1) st.high
  let (input, indices) ← moveCell st.input st.indices st.low high
  let low ← scanLow input key high ((high - st.low).toNat + 1) st.low
  let (input, indices) ← moveCell input indices high low
  some ⟨input, indices, low, high⟩

def partitionLoop (key : α) : ℕ → PartitionState α → Option (PartitionState α)
  | 0, _ => none
  | fuel + 1, st =>
      if st.low < st.high then do
        let st' ← partitionRound key st
        partitionLoop key fuel st'
      else some st

/-- `quick_sort_indice_inverse`.  The fuel bounds the depth of the recursion. -/
def quickSortIndiceInverse : ℕ → List α → ℤ → ℤ → List ℤ → Option (List α × List ℤ)
  | 0, _, _, _, _ => none
  | fuel + 1, input, left, right, indices =>
      if left < right then do
        let keyIndex ← readAt indices left
        let key ← readAt input left
        let st ← partitionLoop key ((right - left).toNat + 1) ⟨input, indices, left, right⟩
        let input ← writeAt st.input st.low key
        let indices ← writeAt st.indices st.low keyIndex
        let (input, indices) ←
          quickSortIndiceInverse fuel input left (st.low - 1) indices
        quickSortIndiceInverse fuel input (st.low + 1) right indices
      else some (input, indices)

example : quickSortIndiceInverse 4 [3, 1, 4, 1] 0 3 [0, 1, 2, 3] =
    some ([4, 3, 1, 1], [2, 0, 1, 3]) := by decide

/-! ## The inner scans -/

/-- Every key in the cell is at most `key`; vacuous outside the vector. -/
def AtMost (key : α) (c : Option α × Option ℤ) : Prop := ∀ x, c.1 = some x → x ≤ key

def AtLeast (key : α) (c : Option α × Option ℤ) : Prop := ∀ x, c.1 = some x → key ≤ x

def cells (input : List α) (indices : List ℤ) (i : ℤ) : Option α × Option ℤ :=
  (readAt input i, readAt indices i)

theorem scanHigh_spec {input : List α} (key : α) {low : ℤ} (hlow : 0 ≤ low) {fuel : ℕ}
    {high : ℤ} (hle : low ≤ high) (hlen : high < input.length)
    (hfuel : (high - low).toNat < fuel) :
    ∃ h, scanHigh input key low fuel high = some h ∧ low ≤ h ∧ h ≤ high ∧
      (∀ i x, h < i → i ≤ high → readAt input i = some x → x ≤ key) ∧
      (h = low ∨ ∃ x, readAt input h = some x ∧ key < x) := by
  induction fuel generalizing high with
  | zero => omega
  | succ fuel ih =>
      unfold scanHigh
      by_cases hlt : low < high
      · obtain ⟨x, hx⟩ := exists_readAt (v := input) (i := high) (by omega) hlen
        simp only [if_pos hlt, hx, Option.bind_eq_bind, Option.bind_some]
        by_cases hxk : x ≤ key
        · obtain ⟨h, hscan, hl, hh, hbelow, hstop⟩ :=
            @ih (high - 1) (by omega) (by omega) (by omega)
          refine ⟨h, by rw [if_pos hxk, hscan], hl, by omega, ?_, hstop⟩
          intro i y hi hih hy
          by_cases hieq : i = high
          · subst hieq
            rw [hx] at hy
            cases hy
            exact hxk
          · exact hbelow i y hi (by omega) hy
        · exact ⟨high, by rw [if_neg hxk], by omega, le_refl _, fun i x h1 h2 => by omega,
            .inr ⟨x, hx, not_le.mp hxk⟩⟩
      · exact ⟨high, by rw [if_neg hlt], hle, le_refl _, fun i x h1 h2 => by omega,
          .inl (by omega)⟩

theorem scanLow_spec {input : List α} (key : α) {high : ℤ} (hlen : high < input.length)
    {fuel : ℕ} {low : ℤ} (hlow : 0 ≤ low) (hle : low ≤ high)
    (hfuel : (high - low).toNat < fuel) :
    ∃ l, scanLow input key high fuel low = some l ∧ low ≤ l ∧ l ≤ high ∧
      (∀ i x, low ≤ i → i < l → readAt input i = some x → key ≤ x) ∧
      (low < high → (∃ x, readAt input low = some x ∧ key ≤ x) → low < l) := by
  induction fuel generalizing low with
  | zero => omega
  | succ fuel ih =>
      unfold scanLow
      by_cases hlt : low < high
      · obtain ⟨x, hx⟩ := exists_readAt (v := input) (i := low) hlow (by omega)
        simp only [if_pos hlt, hx, Option.bind_eq_bind, Option.bind_some]
        by_cases hxk : key ≤ x
        · obtain ⟨l, hscan, hl, hh, habove, -⟩ :=
            @ih (low + 1) (by omega) (by omega) (by omega)
          refine ⟨l, by rw [if_pos hxk, hscan], by omega, hh, ?_, fun _ _ => by omega⟩
          intro i y hi hil hy
          by_cases hieq : i = low
          · subst hieq
            rw [hx] at hy
            cases hy
            exact hxk
          · exact habove i y (by omega) hil hy
        · refine ⟨low, by rw [if_neg hxk], le_refl _, hle, fun i x h1 h2 => by omega, ?_⟩
          rintro - ⟨y, hy, hky⟩
          cases hy
          exact absurd hky hxk
      · exact ⟨low, by rw [if_neg hlt], le_refl _, hle, fun i x h1 h2 => by omega,
          fun h => absurd h hlt⟩

omit [LinearOrder α] in
theorem exists_writePair {input : List α} {indices : List ℤ} {dst : ℤ}
    (hlen : indices.length = input.length) (hdst : 0 ≤ dst ∧ dst < input.length) (x : α) (n : ℤ) :
    ∃ input' indices', writeAt input dst x = some input' ∧ writeAt indices dst n = some indices' ∧
      input'.length = input.length ∧ indices'.length = input.length ∧
      cells input' indices' = Function.update (cells input indices) dst (some x, some n) := by
  obtain ⟨input', hw, hlen₁, hread₁⟩ := exists_writeAt hdst.1 hdst.2 x
  obtain ⟨indices', hw', hlen₂, hread₂⟩ := exists_writeAt (v := indices) hdst.1 (by omega) n
  refine ⟨input', indices', hw, hw', hlen₁, hlen₂.trans hlen, ?_⟩
  ext i : 1
  unfold cells
  rw [hread₁, hread₂]
  by_cases hi : i = dst
  · subst hi
    simp only [Function.update_self]
  · simp only [Function.update_of_ne hi]

omit [LinearOrder α] in
theorem moveCell_spec {input : List α} {indices : List ℤ} {dst src : ℤ}
    (hlen : indices.length = input.length) (hdst : 0 ≤ dst ∧ dst < input.length)
    (hsrc : 0 ≤ src ∧ src < input.length) :
    ∃ input' indices', moveCell input indices dst src = some (input', indices') ∧
      input'.length = input.length ∧ indices'.length = input.length ∧
      cells input' indices' =
        Function.update (cells input indices) dst (cells input indices src) := by
  obtain ⟨x, hx⟩ := exists_readAt hsrc.1 hsrc.2
  obtain ⟨n, hn⟩ := exists_readAt (v := indices) hsrc.1 (by omega)
  obtain ⟨input', indices', hw, hw', hlen₁, hlen₂, hcells⟩ := exists_writePair hlen hdst x n
  have hsrc : cells input indices src = (some x, some n) := by
    unfold cells
    rw [hx, hn]
  refine ⟨input', indices', ?_, hlen₁, hlen₂, hsrc ▸ hcells⟩
  simp only [moveCell, hx, hw, hn, hw', Option.bind_eq_bind, Option.bind_some]

/-! ## The partition -/

/-- The state of the partition of `left .. right` at the head of the outer loop.
`f₀` are the cells before the partition; the hole is at `st.low`. -/
structure PartInv (left right : ℤ) (n : ℕ) (f₀ : ℤ → Option α × Option ℤ) (key : α)
    (keyIndex : ℤ) (st : PartitionState α) : Prop where
  input_length : st.input.length = n
  indices_length : st.indices.length = n
  left_le : left ≤ st.low
  low_le : st.low ≤ st.high
  high_le : st.high ≤ right
  above : ∀ i, left ≤ i → i < st.low → AtLeast key (cells st.input st.indices i)
  below : ∀ i, st.high < i → i ≤ right → AtMost key (cells st.input st.indices i)
  rearranged : RearrangedOn left right f₀
    (Function.update (cells st.input st.indices) st.low (some key, some keyIndex))

theorem partInv_start {left right : ℤ} {n : ℕ} {input : List α} {indices : List ℤ} {key : α}
    {keyIndex : ℤ} (hn₁ : input.length = n) (hn₂ : indices.length = n) (hlt : left < right)
    (hkey : readAt input left = some key) (hkeyIndex : readAt indices left = some keyIndex) :
    PartInv left right n (cells input indices) key keyIndex ⟨input, indices, left, right⟩ := by
  have hcell : (some key, some keyIndex) = cells input indices left := by
    unfold cells
    rw [hkey, hkeyIndex]
  refine ⟨hn₁, hn₂, le_rfl, le_of_lt hlt, le_rfl, ?_, ?_, ?_⟩
  · intro i h1 h2
    exact absurd h1 (not_le.mpr h2)
  · intro i h1 h2
    exact absurd h1 (not_lt.mpr h2)
  · rw [hcell, Function.update_eq_self]
    exact RearrangedOn.refl _ _ _

/-- One round of the outer loop succeeds, keeps the invariant and narrows the gap:
when the downward scan stops above the hole, the pair it moves makes the upward scan
advance at least once. -/
theorem partitionRound_spec {left right : ℤ} {n : ℕ} {f₀ : ℤ → Option α × Option ℤ} {key : α}
    {keyIndex : ℤ} {st : PartitionState α} (h0 : 0 ≤ left) (hright : right < n)
    (hinv : PartInv left right n f₀ key keyIndex st) (hlt : st.low < st.high) :
    ∃ st', partitionRound key st = some st' ∧ PartInv left right n f₀ key keyIndex st' ∧
      st'.high - st'.low < st.high - st.low := by
  obtain ⟨input, indices, low, high⟩ := st
  obtain ⟨hn₁, hn₂, hleft, hle, hhigh, habove, hbelow, hre⟩ := hinv
  dsimp only at *
  have hlow : 0 ≤ low := h0.trans hleft
  have hlen : high < input.length := by omega
  obtain ⟨h, hscan, hlh, hhh, hdown, hstop⟩ :=
    scanHigh_spec key hlow hle hlen (Nat.lt_succ_self (high - low).toNat)
  obtain ⟨input₁, indices₁, hmove₁, hlen₁, hlen₁', hcells₁⟩ :=
    moveCell_spec (hn₂.trans hn₁.symm) (⟨by omega, by omega⟩ : 0 ≤ low ∧ low < input.length)
      (⟨by omega, by omega⟩ : 0 ≤ h ∧ h < input.length)
  have hlen₂ : h < input₁.length := by omega
  obtain ⟨l, hscan', hll, hlh', hup, hprogress⟩ :=
    scanLow_spec key hlen₂ hlow hlh (Nat.lt_succ_self (h - low).toNat)
  obtain ⟨input₂, indices₂, hmove₂, hlen₂, hlen₂', hcells₂⟩ :=
    moveCell_spec (hlen₁'.trans hlen₁.symm) (⟨by omega, by omega⟩ : 0 ≤ h ∧ h < input₁.length)
      (⟨by omega, by omega⟩ : 0 ≤ l ∧ l < input₁.length)
  have hcell₁ : ∀ i, i ≠ low → cells input₁ indices₁ i = cells input indices i := by
    intro i hi
    rw [hcells₁, Function.update_of_ne hi]
  have hcell₂ : ∀ i, i ≠ h → cells input₂ indices₂ i = cells input₁ indices₁ i := by
    intro i hi
    rw [hcells₂, Function.update_of_ne hi]
  have hend : PartInv left right n f₀ key keyIndex ⟨input₂, indices₂, l, h⟩ := by
    refine ⟨hlen₂.trans (hlen₁.trans hn₁), hlen₂'.trans (hlen₁.trans hn₁), hleft.trans hll,
      hlh', hhh.trans hhigh, ?_, ?_, ?_⟩
    · intro i hi hil
      rw [hcell₂ i (by dsimp only at hil; omega)]
      by_cases hlow : i < low
      · rw [hcell₁ i (by omega)]
        exact habove i hi hlow
      · exact fun x hx => hup i x (by omega) hil hx
    · intro i hi hir
      dsimp only at hi
      rw [hcell₂ i (by omega), hcell₁ i (by omega)]
      by_cases hhi : high < i
      · exact hbelow i hhi hir
      · exact fun x hx => hdown i x hi (by omega) hx
    · -- the hole wanders from `low` to `h` and on to `l`
      have hlowmem : left ≤ low ∧ low ≤ right := by omega
      have hhmem : left ≤ h ∧ h ≤ right := by omega
      have hlmem : left ≤ l ∧ l ≤ right := by omega
      have hfirst := RearrangedOn.move_hole (cells input indices) hlowmem hhmem
        (some key, some keyIndex)
      have hsecond := RearrangedOn.move_hole (cells input₁ indices₁) hhmem hlmem
        (some key, some keyIndex)
      rw [← hcells₁] at hfirst
      rw [← hcells₂] at hsecond
      exact (hre.trans hfirst).trans hsecond
  refine ⟨⟨input₂, indices₂, l, h⟩, ?_, hend, ?_⟩
  · simp only [partitionRound, hscan, hmove₁, hscan', hmove₂, Option.bind_eq_bind,
      Option.bind_some]
  · dsimp only
    rcases hstop with heq | ⟨x, hx, hkx⟩
    · omega
    · by_cases heq : h = low
      · omega
      · have hread : readAt input₁ low = some x := by
          have := congrArg Prod.fst (congrFun hcells₁ low)
          rw [Function.update_self] at this
          exact this.trans hx
        have := hprogress (by omega) ⟨x, hread, le_of_lt hkx⟩
        omega

theorem partitionLoop_spec {left right : ℤ} {n : ℕ} {f₀ : ℤ → Option α × Option ℤ} {key : α}
    {keyIndex : ℤ} (h0 : 0 ≤ left) (hright : right < n) {fuel : ℕ} {st : PartitionState α}
    (hinv : PartInv left right n f₀ key keyIndex st)
    (hfuel : (st.high - st.low).toNat < fuel) :
    ∃ st', partitionLoop key fuel st = some st' ∧ PartInv left right n f₀ key keyIndex st' ∧
      st'.low = st'.high := by
  induction fuel generalizing st with
  | zero => omega
  | succ fuel ih =>
      unfold partitionLoop
      by_cases hlt : st.low < st.high
      · obtain ⟨st₁, hround, hinv₁, hdec⟩ := partitionRound_spec h0 hright hinv hlt
        obtain ⟨st₂, hloop, hinv₂, hend⟩ := ih hinv₁ (by omega)
        refine ⟨st₂, ?_, hinv₂, hend⟩
        simp only [if_pos hlt, hround, hloop, Option.bind_eq_bind, Option.bind_some]
      · exact ⟨st, if_neg hlt, hinv, Int.le_antisymm hinv.low_le (by omega)⟩

/-! ## The whole sort -/

def SortedOn (left right : ℤ) (input : List α) : Prop :=
  ∀ i j x y, left ≤ i → i ≤ j → j ≤ right → readAt input i = some x →
    readAt input j = some y → y ≤ x

omit [LinearOrder α] in
theorem RearrangedOn.readAt_frame {lo up : ℤ} {input input' : List α} {indices indices' : List ℤ}
    (h : RearrangedOn lo up (cells input indices) (cells input' indices')) {i : ℤ}
    (hi : i < lo ∨ up < i) : readAt input' i = readAt input i :=
  congrArg Prod.fst (h.frame hi)

theorem sortedOn_of_halves {left mid right : ℤ} {input : List α} {key : α}
    (hkey : readAt input mid = some key)
    (hleft : SortedOn left (mid - 1) input) (hright : SortedOn (mid + 1) right input)
    (habove : ∀ i x, left ≤ i → i < mid → readAt input i = some x → key ≤ x)
    (hbelow : ∀ i x, mid < i → i ≤ right → readAt input i = some x → x ≤ key) :
    SortedOn left right input := by
  intro i j x y hi hij hj hx hy
  rcases lt_trichotomy j mid with hjm | rfl | hjm
  · exact hleft i j x y hi hij (by omega) hx hy
  · rw [hkey] at hy
    cases hy
    rcases hij.eq_or_lt with rfl | hlt
    · rw [hkey] at hx
      cases hx
      exact le_rfl
    · exact habove i x hi hlt hx
  · rcases lt_trichotomy i mid with him | rfl | him
    · exact (hbelow j y hjm hj hy).trans (habove i x hi him hx)
    · rw [hkey] at hx
      cases hx
      exact hbelow j y hjm hj hy
    · exact hright i j x y (by omega) hij hj hx hy

structure Split (left mid right : ℤ) (key : α) (f : ℤ → Option α × Option ℤ) : Prop where
  pivot : (f mid).1 = some key
  above : ∀ i, left ≤ i → i ≤ mid - 1 → AtLeast key (f i)
  below : ∀ i, mid + 1 ≤ i → i ≤ right → AtMost key (f i)

theorem PartInv.split {left right : ℤ} {n : ℕ} {f₀ : ℤ → Option α × Option ℤ} {key : α}
    {keyIndex : ℤ} {st : PartitionState α} (h : PartInv left right n f₀ key keyIndex st)
    (hmeet : st.low = st.high) :
    Split left st.low right key
      (Function.update (cells st.input st.indices) st.low (some key, some keyIndex)) := by
  constructor
  · rw [Function.update_self]
  · intro i h1 h2
    rw [Function.update_of_ne (by omega)]
    exact h.above i h1 (by omega)
  · intro i h1 h2
    rw [Function.update_of_ne (by omega)]
    exact h.below i (by omega) h2

theorem Split.sortedOn {left mid right : ℤ} {key : α} {input input₁ input₂ : List α}
    {indices indices₁ indices₂ : List ℤ} (h : Split left mid right key (cells input indices))
    (hre₁ : RearrangedOn left (mid - 1) (cells input indices) (cells input₁ indices₁))
    (hs₁ : SortedOn left (mid - 1) input₁)
    (hre₂ : RearrangedOn (mid + 1) right (cells input₁ indices₁) (cells input₂ indices₂))
    (hs₂ : SortedOn (mid + 1) right input₂) : SortedOn left right input₂ := by
  have habove := hre₁.forall_range h.above
  have hbelow := hre₂.forall_range fun i h1 h2 => by
    rw [hre₁.frame (.inr (by omega))]
    exact h.below i h1 h2
  have hframe : ∀ i, i ≤ mid → readAt input₂ i = readAt input₁ i := fun i hi =>
    RearrangedOn.readAt_frame hre₂ (.inl (by omega))
  have hpivot : readAt input₂ mid = some key := by
    rw [hframe mid le_rfl, RearrangedOn.readAt_frame hre₁ (.inr (by omega))]
    exact h.pivot
  apply sortedOn_of_halves hpivot _ hs₂
  · intro i x h1 h2 hx
    rw [hframe i (le_of_lt h2)] at hx
    exact habove i h1 (by omega) x hx
  · intro i x h1 h2 hx
    exact hbelow i (by omega) h2 x hx
  · intro i j x y h1 h2 h3 hx hy
    rw [hframe i (by omega)] at hx
    rw [hframe j (by omega)] at hy
    exact hs₁ i j x y h1 h2 h3 hx hy

/-- The sort succeeds, rearranges the pairs inside the range and leaves the keys
there non-increasing. -/
theorem quickSortIndiceInverse_spec {n : ℕ} {fuel : ℕ} {input : List α} {indices : List ℤ}
    {left right : ℤ} (hn₁ : input.length = n) (hn₂ : indices.length = n) (h0 : 0 ≤ left)
    (hright : right < n) (hfuel : right - left + 1 ≤ fuel) (hpos : 0 < fuel) :
    ∃ input' indices', quickSortIndiceInverse fuel input left right indices =
        some (input', indices') ∧
      input'.length = n ∧ indices'.length = n ∧
      RearrangedOn left right (cells input indices) (cells input' indices') ∧
      SortedOn left right input' := by
  induction fuel generalizing input indices left right with
  | zero => omega
  | succ fuel ih =>
      unfold quickSortIndiceInverse
      by_cases hlt : left < right
      · obtain ⟨keyIndex, hki⟩ := exists_readAt (v := indices) (i := left) h0 (by omega)
        obtain ⟨key, hk⟩ := exists_readAt (v := input) (i := left) h0 (by omega)
        have hstart := partInv_start hn₁ hn₂ hlt hk hki
        obtain ⟨⟨input₁, indices₁, mid, mid'⟩, hloop, hinv, hmid⟩ :=
          partitionLoop_spec h0 hright hstart (Nat.lt_succ_self (right - left).toNat)
        have hsplit := hinv.split hmid
        obtain ⟨hl₁, hl₁', hleft, -, hhigh, -, -, hre⟩ := hinv
        dsimp only at *
        subst hmid
        -- the pivot pair is written back into the hole
        obtain ⟨input₂, indices₂, hw, hw', hl₂, hl₂', hcells₂⟩ :=
          exists_writePair (hl₁'.trans hl₁.symm)
            (⟨by omega, by omega⟩ : 0 ≤ mid ∧ mid < input₁.length) key keyIndex
        rw [← hcells₂] at hre hsplit
        obtain ⟨input₃, indices₃, hrec, hl₃, hl₃', hre₃, hs₃⟩ :=
          @ih input₂ indices₂ left (mid - 1) (by omega) (by omega) h0 (by omega) (by omega)
            (by omega)
        obtain ⟨input₄, indices₄, hrec', hl₄, hl₄', hre₄, hs₄⟩ :=
          @ih input₃ indices₃ (mid + 1) right (by omega) (by omega) (by omega) hright (by omega)
            (by omega)
        refine ⟨input₄, indices₄, ?_, hl₄, hl₄', ?_, hsplit.sortedOn hre₃ hs₃ hre₄ hs₄⟩
        · simp only [if_pos hlt, hki, hk, hloop, hw, hw', hrec, hrec', Option.bind_eq_bind,
            Option.bind_some]
        · exact (hre.trans (hre₃.widen le_rfl (by omega))).trans (hre₄.widen (by omega) le_rfl)
      · refine ⟨input, indices, if_neg hlt, hn₁, hn₂, RearrangedOn.refl _ _ _, ?_⟩
        intro i j x y h1 h2 h3 hx hy
        have hij : i = j := by omega
        subst hij
        rw [hx] at hy
        cases hy
        exact le_rfl

end CatDect.Postprocess.IndexSort
