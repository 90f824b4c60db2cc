import CatDect.Postprocess.Prefilter

/-!
# The layout of the output tensors

The network reports its outputs as `[1, H, W, 255]`, row by row.  `post_process` takes the
third entry of `dims` for the height of the grid and the second for its width, and derives
the stride from the height of the model and what it holds for the height of the grid.
Since the bytes of the cells are consecutive it still visits all of them in their order,
but for a grid that is not square it puts them in the wrong places.
-/

namespace CatDect.Postprocess

open CatDect.Support

/-! ## Cells by number -/

theorem range_flatMap (m n : ℕ) :
    ((List.range m).flatMap fun i => (List.range n).map fun j => i * n + j) =
      List.range (m * n) := by
  induction m with
  | zero => simp
  | succ m ih =>
      rw [List.range_succ, List.flatMap_append, ih, List.flatMap_singleton, Nat.succ_mul,
        List.range_add]

namespace Branch

variable (b : Branch)

/-- The cell whose bytes come after those of `m` other cells. -/
def cellAt (m : ℕ) : Cell :=
  ⟨m / 3 / b.gridW.toNat, m / 3 % b.gridW.toNat, m % 3⟩

theorem cells_eq : b.cells = (List.range (b.gridH.toNat * b.gridW.toNat * 3)).map b.cellAt := by
  have hcell : ∀ row, ∀ col ∈ List.range b.gridW.toNat, ∀ a ∈ List.range 3,
      (⟨row, col, a⟩ : Cell) = b.cellAt ((row * b.gridW.toNat + col) * 3 + a) := by
    intro row col hcol a ha
    have hcol := List.mem_range.mp hcol
    have ha := List.mem_range.mp ha
    have hpos : 0 < b.gridW.toNat := by omega
    have hthird : ((row * b.gridW.toNat + col) * 3 + a) / 3 = row * b.gridW.toNat + col := by omega
    have hrow : (row * b.gridW.toNat + col) / b.gridW.toNat = row := by
      rw [Nat.mul_comm, Nat.mul_add_div hpos, Nat.div_eq_of_lt hcol, Nat.add_zero]
    have hmod : (row * b.gridW.toNat + col) % b.gridW.toNat = col := by
      rw [Nat.mul_comm, Nat.mul_add_mod, Nat.mod_eq_of_lt hcol]
    unfold cellAt
    rw [hthird, hrow, hmod]
    congr 1
    omega
  rw [← range_flatMap, ← range_flatMap]
  simp only [List.map_flatMap, List.flatMap_assoc, List.flatMap_map, List.map_map]
  apply List.flatMap_congr
  intro row _
  apply List.flatMap_congr
  intro col hcol
  exact List.map_congr_left (hcell row col hcol)

theorem offset_cellAt (m : ℕ) : b.offset (b.cellAt m) = propBoxSize * m := by
  have hrow := Nat.div_add_mod' (m / 3) b.gridW.toNat
  have ha := Nat.div_add_mod m 3
  calc b.offset (b.cellAt m)
      = (m / 3 / b.gridW.toNat * b.gridW.toNat + m / 3 % b.gridW.toNat) * (propBoxSize * 3) +
          m % 3 * propBoxSize := rfl
    _ = m / 3 * (propBoxSize * 3) + m % 3 * propBoxSize := by rw [hrow]
    _ = propBoxSize * (3 * (m / 3) + m % 3) := by ring
    _ = propBoxSize * m := by rw [ha]

theorem passes_congr {b b' : Branch} {input : List ℤ} {c c' : Cell}
    (hthreshold : b.threshold = b'.threshold) (hzp : b.zp = b'.zp) (hscale : b.scale = b'.scale)
    (hoffset : b.offset c = b'.offset c') : b.Passes input c ↔ b'.Passes input c' := by
  unfold Passes score confidence classProb value
  rw [hthreshold, hzp, hscale, hoffset]

end Branch

/-! ## Models and their outputs -/

/-- The size of a model input and the strides of its outputs. -/
structure ModelShape where
  height : ℕ
  width : ℕ
  stride : ℕ → ℕ
  stride_pos : ∀ i < 3, 0 < stride i
  le_height : ∀ i < 3, stride i ≤ height
  le_width : ∀ i < 3, stride i ≤ width

namespace ModelShape

variable (m : ModelShape)

def gridH (i : ℕ) : ℕ := m.height / m.stride i

def gridW (i : ℕ) : ℕ := m.width / m.stride i

theorem gridH_pos {i : ℕ} (hi : i < 3) : 0 < m.gridH i :=
  Nat.div_pos (m.le_height i hi) (m.stride_pos i hi)

theorem gridW_pos {i : ℕ} (hi : i < 3) : 0 < m.gridW i :=
  Nat.div_pos (m.le_width i hi) (m.stride_pos i hi)

end ModelShape

structure NhwcOutputs (m : ModelShape) where
  zp : ℕ → ℤ
  scale : ℕ → ℚ
  tensor : ℕ → List ℤ
  tensor_length : ∀ i < 3, (tensor i).length = m.gridH i * m.gridW i * 255
  tensor_bytes : ∀ i < 3, ∀ q ∈ tensor i, -128 ≤ q ∧ q ≤ 127

namespace NhwcOutputs

variable {m : ModelShape} (o : NhwcOutputs m) (conf : ℚ) (i : ℕ)

def context : AppContext where
  outputAttrs := (List.range 3).map fun i =>
    { dims := [1, m.gridH i, m.gridW i, 255], zp := o.zp i, scale := o.scale i }
  modelWidth := m.width
  modelHeight := m.height
  isQuant := true

def outputs : List (List ℤ) := (List.range 3).map o.tensor

def layoutBranch : Branch where
  anchor := anchor.getD i []
  gridH := m.gridH i
  gridW := m.gridW i
  stride := m.stride i
  threshold := conf
  zp := o.zp i
  scale := o.scale i

def codeBranch : Branch where
  anchor := anchor.getD i []
  gridH := m.gridW i
  gridW := m.gridH i
  stride := (m.height / m.gridW i : ℕ)
  threshold := conf
  zp := o.zp i
  scale := o.scale i

/-- Every candidate `post_process` obtains is the cell of its row, column and anchor. -/
def DecodesLayout : Prop :=
  ∃ d, (List.range 3).foldlM (decodeOutput o.context o.outputs conf) .empty = some d ∧
    d.toList = (List.range 3).flatMap fun i => (o.layoutBranch conf i).candidates (o.tensor i)

theorem anchor_length {i : ℕ} (hi : i < 3) : (anchor.getD i []).length = 6 := by
  obtain rfl | rfl | rfl : i = 0 ∨ i = 1 ∨ i = 2 := by omega
  · rfl
  · rfl
  · rfl

theorem decodeOutput_eq {i : ℕ} (hi : i < 3) (d : Candidates) :
    decodeOutput o.context o.outputs conf d i =
      some (d.append ((o.codeBranch conf i).candidates (o.tensor i))) := by
  have hattr : o.context.outputAttrs[i]? =
      some { dims := [1, m.gridH i, m.gridW i, 255], zp := o.zp i, scale := o.scale i } := by
    simp [context, hi]
  have houtput : o.outputs[i]? = some (o.tensor i) := by simp [outputs, hi]
  have hanchor : anchor[i]? = some (anchor.getD i []) :=
    Candidates.getElem?_of_lt [] hi
  have hne : (m.gridW i : ℤ) ≠ 0 := by
    have := m.gridW_pos hi
    omega
  have hstride : o.context.modelHeight.tdiv (m.gridW i) = (m.height / m.gridW i : ℕ) :=
    (Int.ofNat_tdiv _ _).symm
  have hfits : (o.codeBranch conf i).Fits (o.tensor i) := by
    have hlength := o.tensor_length i hi
    unfold Branch.Fits
    rw [hlength, Nat.mul_comm (m.gridH i)]
    exact le_rfl
  have hrun := processI8Rv1106_eq (b := o.codeBranch conf i) (Int.natCast_nonneg _) hfits
    (anchor_length hi) d
  unfold decodeOutput
  simp only [hattr, houtput, hanchor, Option.bind_eq_bind, Option.bind_some,
    List.getElem?_cons_succ, List.getElem?_cons_zero, if_neg hne, hstride]
  exact hrun

theorem decode_eq :
    ∃ d, (List.range 3).foldlM (decodeOutput o.context o.outputs conf) .empty = some d ∧
      d.toList = (List.range 3).flatMap fun i => (o.codeBranch conf i).candidates (o.tensor i) := by
  obtain ⟨d, hd, hlist⟩ := foldlM_list_rule (l := List.range 3)
    (f := decodeOutput o.context o.outputs conf) (s := Candidates.empty)
    (fun done d => d.toList =
      done.flatMap fun i => (o.codeBranch conf i).candidates (o.tensor i)) rfl (by
      intro done i rest d hsplit hd
      have hi : i < 3 := by
        apply List.mem_range.mp
        rw [hsplit]
        simp
      refine ⟨_, o.decodeOutput_eq conf hi d, ?_⟩
      rw [Candidates.toList_append, hd, List.flatMap_append, List.flatMap_singleton])
  exact ⟨d, hd, hlist⟩

/-! ## The candidates, one by one -/

variable {i : ℕ}

theorem candidates_eq (n : ℕ) (b : Branch) (hb : b.gridH.toNat * b.gridW.toNat = n)
    (input : List ℤ) :
    b.candidates input =
      ((List.range (n * 3)).filter fun k => b.Passes input (b.cellAt k)).map
        fun k => b.decoded input (b.cellAt k) := by
  unfold Branch.candidates
  rw [b.cells_eq, hb, List.filter_map, List.map_map]
  rfl

theorem passes_cellAt (k : ℕ) :
    (o.codeBranch conf i).Passes (o.tensor i) ((o.codeBranch conf i).cellAt k) ↔
      (o.layoutBranch conf i).Passes (o.tensor i) ((o.layoutBranch conf i).cellAt k) := by
  apply Branch.passes_congr
  · rfl
  · rfl
  · rfl
  · rw [Branch.offset_cellAt, Branch.offset_cellAt]

theorem candidates_code :
    (o.codeBranch conf i).candidates (o.tensor i) =
      ((List.range (m.gridH i * m.gridW i * 3)).filter fun k =>
        (o.layoutBranch conf i).Passes (o.tensor i) ((o.layoutBranch conf i).cellAt k)).map
        fun k => (o.codeBranch conf i).decoded (o.tensor i) ((o.codeBranch conf i).cellAt k) := by
  have hcount : (o.codeBranch conf i).gridH.toNat * (o.codeBranch conf i).gridW.toNat =
      m.gridH i * m.gridW i := Nat.mul_comm _ _
  rw [candidates_eq _ _ hcount]
  apply congrArg (List.map _)
  apply List.filter_congr
  intro k _
  rw [decide_eq_decide]
  exact o.passes_cellAt conf k

theorem candidates_layout :
    (o.layoutBranch conf i).candidates (o.tensor i) =
      ((List.range (m.gridH i * m.gridW i * 3)).filter fun k =>
        (o.layoutBranch conf i).Passes (o.tensor i) ((o.layoutBranch conf i).cellAt k)).map
        fun k => (o.layoutBranch conf i).decoded (o.tensor i) ((o.layoutBranch conf i).cellAt k) :=
  candidates_eq (m.gridH i * m.gridW i) _ rfl _

end NhwcOutputs

theorem flatMap_inj {α β : Type*} {l : List α} {f g : α → List β}
    (hlen : ∀ a ∈ l, (f a).length = (g a).length) (h : l.flatMap f = l.flatMap g) :
    ∀ a ∈ l, f a = g a := by
  induction l with
  | nil => exact fun a ha => absurd ha List.not_mem_nil
  | cons b l ih =>
      rw [List.flatMap_cons, List.flatMap_cons] at h
      obtain ⟨hhead, htail⟩ := List.append_inj h (hlen b List.mem_cons_self)
      intro a ha
      rcases List.mem_cons.mp ha with rfl | ha
      · exact hhead
      · exact ih (fun a ha => hlen a (List.mem_cons_of_mem _ ha)) htail a ha

namespace NhwcOutputs

variable {m : ModelShape} (o : NhwcOutputs m) (conf : ℚ) {i : ℕ}

theorem DecodesLayout.centreX_eq (h : o.DecodesLayout conf) (hi : i < 3) {k : ℕ}
    (hk : k < m.gridH i * m.gridW i * 3)
    (hpass : (o.layoutBranch conf i).Passes (o.tensor i) ((o.layoutBranch conf i).cellAt k)) :
    (o.codeBranch conf i).centreX (o.tensor i) ((o.codeBranch conf i).cellAt k) =
      (o.layoutBranch conf i).centreX (o.tensor i) ((o.layoutBranch conf i).cellAt k) := by
  obtain ⟨d, hd, hlist⟩ := h
  obtain ⟨d', hd', hlist'⟩ := o.decode_eq conf
  obtain rfl := Option.some.inj (hd.symm.trans hd')
  have hsame := flatMap_inj (fun i _ => by
    rw [o.candidates_code, o.candidates_layout, List.length_map, List.length_map])
    (hlist'.symm.trans hlist) i (List.mem_range.mpr hi)
  rw [o.candidates_code, o.candidates_layout, List.map_inj_left] at hsame
  have hcell := hsame k (List.mem_filter.mpr ⟨List.mem_range.mpr hk, by simpa using hpass⟩)
  have hw := congrArg Candidate.w hcell
  have hx := congrArg Candidate.x hcell
  simp only [Branch.decoded] at hw hx
  linarith

end NhwcOutputs

/-! ## Which models are decoded correctly -/

def brightOutputs (m : ModelShape) : NhwcOutputs m where
  zp := fun _ => -128
  scale := fun _ => 1 / 255
  tensor := fun i => List.replicate (m.gridH i * m.gridW i * 255) 127
  tensor_length := fun _ _ => List.length_replicate
  tensor_bytes := by
    intro i _ q hq
    rw [List.eq_of_mem_replicate hq]
    decide

/-- The output is square, and its height divides the height of the model into its stride. -/
def ModelShape.Square (m : ModelShape) (i : ℕ) : Prop :=
  m.gridH i = m.gridW i ∧ m.height < (m.stride i + 1) * m.gridH i

theorem ModelShape.square_iff (m : ModelShape) {i : ℕ} (hi : i < 3) :
    m.Square i ↔ m.gridH i = m.gridW i ∧ m.height / m.gridW i = m.stride i := by
  unfold Square
  apply and_congr_right
  intro hsquare
  have hle : m.stride i * m.gridW i ≤ m.height := by
    rw [← hsquare]
    exact Nat.mul_div_le m.height (m.stride i)
  rw [hsquare]
  constructor
  · intro hlt
    exact Nat.div_eq_of_lt_le hle hlt
  · intro hstride
    have hlt := Nat.lt_mul_div_succ m.height (m.gridW_pos hi)
    rw [hstride, Nat.mul_comm] at hlt
    exact hlt

section Bright

variable {m : ModelShape} {i k : ℕ} {b : Branch} {l n : ℕ}

theorem bright_value (hzp : b.zp = -128) (hscale : b.scale = 1 / 255) (hn : n < l) :
    b.value (List.replicate l 127) n = 1 := by
  have hbyte : (List.replicate l (127 : ℤ)).getD n 0 = 127 := by
    rw [List.getD_eq_getElem _ _ (by simpa using hn), List.getElem_replicate]
  unfold Branch.value deqntAffineToF32
  rw [hbyte, hzp, hscale]
  norm_num

theorem bright_passes (hzp : b.zp = -128) (hscale : b.scale = 1 / 255)
    (hthreshold : b.threshold = 1 / 4) (hk : propBoxSize * k + propBoxSize ≤ l) :
    b.Passes (List.replicate l 127) (b.cellAt k) := by
  have hsize : propBoxSize = 5 + objClassNum := rfl
  have hbest := (firstMax_spec
    (fun j => (List.replicate l (127 : ℤ)).getD (propBoxSize * k + 5 + j) 0)
    (by decide : 0 < objClassNum)).lt
  constructor
  · rw [b.offset_cellAt, hthreshold, hzp, hscale,
      List.getD_eq_getElem _ _ (by rw [List.length_replicate]; omega), List.getElem_replicate]
    apply clip_le_of_lt (by decide)
    norm_num
  · unfold Branch.score Branch.confidence Branch.classProb
    rw [b.offset_cellAt, hthreshold, bright_value hzp hscale (by omega)]
    unfold bestClass
    rw [bright_value hzp hscale (by omega)]
    norm_num

theorem bright_centreX (hzp : b.zp = -128) (hscale : b.scale = 1 / 255)
    (hk : propBoxSize * k < l) :
    b.centreX (List.replicate l 127) (b.cellAt k) =
      (3 / 2 + (k / 3 % b.gridW.toNat : ℕ)) * b.stride := by
  unfold Branch.centreX
  rw [b.offset_cellAt, bright_value hzp hscale hk, Branch.cellAt]
  norm_num

theorem bright_misplaced (hi : i < 3) (h : ¬ m.Square i) :
    ¬ (brightOutputs m).DecodesLayout (1 / 4) := by
  intro hdecodes
  have hcentre : ∀ k < m.gridH i * m.gridW i * 3,
      (3 / 2 + (k / 3 % m.gridH i : ℕ) : ℚ) * (m.height / m.gridW i : ℕ) =
        (3 / 2 + (k / 3 % m.gridW i : ℕ)) * (m.stride i : ℕ) := by
    intro k hk
    have hsize : propBoxSize = 85 := rfl
    have hfit : propBoxSize * k + propBoxSize ≤ m.gridH i * m.gridW i * 255 := by
      rw [hsize]
      omega
    have hx := NhwcOutputs.DecodesLayout.centreX_eq _ _ hdecodes hi hk
      (bright_passes rfl rfl rfl hfit)
    have hlt : propBoxSize * k < m.gridH i * m.gridW i * 255 := by omega
    have hcode := bright_centreX (b := (brightOutputs m).codeBranch (1 / 4) i) rfl rfl hlt
    have hlayout := bright_centreX (b := (brightOutputs m).layoutBranch (1 / 4) i) rfl rfl hlt
    have hsame := hcode.symm.trans (hx.trans hlayout)
    simpa only [NhwcOutputs.codeBranch, NhwcOutputs.layoutBranch, Int.toNat_natCast,
      Int.cast_natCast] using hsame
  have hH := m.gridH_pos hi
  have hW := m.gridW_pos hi
  have hstride : m.height / m.gridW i = m.stride i := by
    -- the first cell has row 0 and column 0 on both sides
    have hfirst := hcentre 0 (by positivity)
    simp only [Nat.zero_div, Nat.zero_mod, Nat.cast_zero, add_zero] at hfirst
    have hcast := mul_left_cancel₀ (by norm_num : (3 / 2 : ℚ) ≠ 0) hfirst
    exact_mod_cast hcast
  have hle : m.gridW i ≤ m.gridH i := by
    apply (Nat.le_div_iff_mul_le (m.stride_pos i hi)).mpr
    rw [← hstride, Nat.mul_comm]
    exact Nat.div_mul_le_self _ _
  rcases Nat.eq_or_lt_of_le hle with heq | hlt
  · exact h ((m.square_iff hi).mpr ⟨heq.symm, hstride⟩)
  · -- the first cell of the second row
    have hcells : 3 * m.gridW i < m.gridH i * m.gridW i * 3 := by
      have := Nat.mul_lt_mul_of_pos_right (show 1 < m.gridH i by omega) hW
      omega
    have hsecond := hcentre (3 * m.gridW i) hcells
    rw [Nat.mul_div_cancel_left _ (by decide : 0 < 3), Nat.mod_self, Nat.mod_eq_of_lt hlt,
      hstride, Nat.cast_zero, add_zero] at hsecond
    have hpos : (0 : ℚ) < m.gridW i * m.stride i :=
      mul_pos (by exact_mod_cast hW) (by exact_mod_cast m.stride_pos i hi)
    linarith

end Bright

/-- **Which models are decoded correctly.**  Whatever their tensors hold, exactly those with
square outputs. -/
theorem decodesLayout_iff_square (m : ModelShape) :
    (∀ (o : NhwcOutputs m) (conf : ℚ), o.DecodesLayout conf) ↔ ∀ i < 3, m.Square i := by
  constructor
  · intro h i hi
    by_contra hsquare
    exact bright_misplaced hi hsquare (h (brightOutputs m) (1 / 4))
  · intro h o conf
    obtain ⟨d, hd, hlist⟩ := o.decode_eq conf
    refine ⟨d, hd, ?_⟩
    rw [hlist]
    apply List.flatMap_congr
    intro i hi
    obtain ⟨hsquare, hstride⟩ := (m.square_iff (List.mem_range.mp hi)).mp
      (h i (List.mem_range.mp hi))
    have hbranch : o.codeBranch conf i = o.layoutBranch conf i := by
      unfold NhwcOutputs.codeBranch NhwcOutputs.layoutBranch
      rw [hstride, hsquare]
    rw [hbranch]

/-- A model input of 384 rows and 640 columns, with the strides of the deployed model. -/
def wideModel : ModelShape where
  height := 384
  width := 640
  stride := fun i => 8 * 2 ^ i
  stride_pos := by decide
  le_height := by decide
  le_width := by decide

theorem wideModel_misplaced : ¬ ∀ o : NhwcOutputs wideModel, o.DecodesLayout (1 / 4) := by
  intro h
  have hsquare : ¬ wideModel.Square 0 := fun hs => absurd hs.1 (by decide)
  exact bright_misplaced (by decide) hsquare (h (brightOutputs wideModel))

end CatDect.Postprocess
