import CatDect.Postprocess.Decode
import CatDect.Support.FirstMax

/-!
# The cells of an output tensor

`process_i8_rv1106` visits the cells of the grid row by row, and in each of them the three
anchors.  `processI8Rv1106_eq` is its specification: all reads are in range, and the
candidates appended are the decoded cells that pass the two comparisons, in that order.
-/

namespace CatDect.Postprocess

open CatDect.Support

/-! ## What a cell stands for -/

structure Cell where
  row : ℕ
  col : ℕ
  anchor : ℕ

def bestClass (input : List ℤ) (offset : ℕ) : ℕ :=
  firstMax (fun k => input.getD (offset + 5 + k) 0) objClassNum

namespace Branch

variable (b : Branch) (input : List ℤ) (c : Cell)

def cells : List Cell :=
  (List.range b.gridH.toNat).flatMap fun row =>
    (List.range b.gridW.toNat).flatMap fun col =>
      (List.range 3).map fun a => ⟨row, col, a⟩

def offset : ℕ :=
  (c.row * b.gridW.toNat + c.col) * (propBoxSize * 3) + c.anchor * propBoxSize

def Fits : Prop := b.gridH.toNat * b.gridW.toNat * (propBoxSize * 3) ≤ input.length

def value (n : ℕ) : ℚ := deqntAffineToF32 (input.getD n 0) b.zp b.scale

def confidence : ℚ := b.value input (b.offset c + 4)

def classProb (k : ℕ) : ℚ := b.value input (b.offset c + 5 + k)

def score : ℚ :=
  b.confidence input c * b.classProb input c (bestClass input (b.offset c))

/-- The cell passes the quantised comparison and the exact one. -/
def Passes : Prop :=
  qntF32ToAffine b.threshold b.zp b.scale ≤ input.getD (b.offset c + 4) 0 ∧
    b.threshold < b.score input c

instance : Decidable (b.Passes input c) := inferInstanceAs (Decidable (_ ∧ _))

def centreX : ℚ := (b.value input (b.offset c) * 2 - 1 / 2 + c.col) * b.stride

def centreY : ℚ := (b.value input (b.offset c + 1) * 2 - 1 / 2 + c.row) * b.stride

def boxWidth : ℚ :=
  b.value input (b.offset c + 2) * 2 * (b.value input (b.offset c + 2) * 2) *
    b.anchor.getD (2 * c.anchor) 0

def boxHeight : ℚ :=
  b.value input (b.offset c + 3) * 2 * (b.value input (b.offset c + 3) * 2) *
    b.anchor.getD (2 * c.anchor + 1) 0

def decoded : Candidate where
  x := b.centreX input c - b.boxWidth input c / 2
  y := b.centreY input c - b.boxHeight input c / 2
  w := b.boxWidth input c
  h := b.boxHeight input c
  score := b.score input c
  cls := bestClass input (b.offset c)

def candidates : List Candidate :=
  (b.cells.filter fun c => b.Passes input c).map (b.decoded input)

end Branch

/-! ## One cell -/

theorem readAt_add {input : List ℤ} {n k : ℕ} (h : n + k < input.length) :
    readAt input ((n : ℤ) + (k : ℕ)) = some (input.getD (n + k) 0) := by
  rw [← Nat.cast_add, readAt_natCast]
  exact Candidates.getElem?_of_lt 0 h

theorem maxClass_eq {input : List ℤ} {n : ℕ} (h : n + propBoxSize ≤ input.length) :
    maxClass input n =
      some (input.getD (n + 5 + bestClass input n) 0, bestClass input n) := by
  have hlen : n + 5 + objClassNum ≤ input.length := h
  have hpos : 0 < objClassNum := by decide
  have hfirst : readAt input ((n : ℤ) + 5) = some (input.getD (n + 5) 0) :=
    readAt_add (k := 5) (by omega)
  unfold maxClass
  rw [hfirst, Option.bind_eq_bind, Option.bind_some]
  apply foldlM_firstMax (f := fun k => input.getD (n + 5 + k) 0) hpos
  intro k hk best
  have hread : readAt input ((n : ℤ) + 5 + (k : ℕ)) = some (input.getD (n + 5 + k) 0) :=
    readAt_add (n := n + 5) (by omega)
  rw [hread]
  rfl

section Cell

variable {b : Branch} {input : List ℤ} {h w a : ℕ} {d : Candidates}

theorem readAt_anchor (hanchor : b.anchor.length = 6) (ha : a < 3) :
    readAt b.anchor ((a : ℤ) * 2) = some (b.anchor.getD (2 * a) 0) ∧
      readAt b.anchor ((a : ℤ) * 2 + 1) = some (b.anchor.getD (2 * a + 1) 0) := by
  have hcast : (a : ℤ) * 2 = (2 * a : ℕ) := by
    push_cast
    ring
  rw [hcast]
  constructor
  · rw [readAt_natCast]
    exact Candidates.getElem?_of_lt 0 (by omega)
  · exact readAt_add (n := 2 * a) (k := 1) (by omega)

theorem decodeBox_eq (hfit : b.offset ⟨h, w, a⟩ + propBoxSize ≤ input.length)
    (hanchor : b.anchor.length = 6) (ha : a < 3) (score : ℚ) (cls : ℤ) :
    decodeBox b input (b.offset ⟨h, w, a⟩) h w a score cls =
      some { b.decoded input ⟨h, w, a⟩ with score := score, cls := cls } := by
  have hsize : propBoxSize = 85 := rfl
  set n := b.offset ⟨h, w, a⟩ with hn
  have h0 : readAt input (n : ℤ) = some (input.getD n 0) := by
    rw [readAt_natCast]
    exact Candidates.getElem?_of_lt 0 (by omega)
  have h1 : readAt input ((n : ℤ) + 1) = some (input.getD (n + 1) 0) :=
    readAt_add (k := 1) (by omega)
  have h2 : readAt input ((n : ℤ) + 2) = some (input.getD (n + 2) 0) :=
    readAt_add (k := 2) (by omega)
  have h3 : readAt input ((n : ℤ) + 3) = some (input.getD (n + 3) 0) :=
    readAt_add (k := 3) (by omega)
  obtain ⟨hW, hH⟩ := readAt_anchor hanchor ha
  unfold decodeBox
  simp only [h0, h1, h2, h3, hW, hH, Option.bind_eq_bind, Option.bind_some]
  rfl

theorem offset_cast (hgridW : 0 ≤ b.gridW) (h w a : ℕ) :
    (h * b.gridW * ((propBoxSize : ℤ) * 3) + w * ((propBoxSize : ℤ) * 3) + a * propBoxSize : ℤ) =
      b.offset ⟨h, w, a⟩ := by
  have hcast : ((b.gridW.toNat : ℕ) : ℤ) = b.gridW := Int.toNat_of_nonneg hgridW
  unfold Branch.offset
  push_cast
  rw [hcast]
  ring

theorem decodeCell_eq (hgridW : 0 ≤ b.gridW)
    (hfit : b.offset ⟨h, w, a⟩ + propBoxSize ≤ input.length)
    (hanchor : b.anchor.length = 6) (ha : a < 3) :
    decodeCell b input h w d a =
      some (if b.Passes input ⟨h, w, a⟩ then d.push (b.decoded input ⟨h, w, a⟩) else d) := by
  have hsize : propBoxSize = 85 := rfl
  have hconf : readAt input ((b.offset ⟨h, w, a⟩ : ℤ) + 4) =
      some (input.getD (b.offset ⟨h, w, a⟩ + 4) 0) := readAt_add (k := 4) (by omega)
  unfold decodeCell
  simp only [offset_cast hgridW, hconf, maxClass_eq hfit, decodeBox_eq hfit hanchor ha,
    Option.bind_eq_bind, Option.bind_some]
  by_cases hquant : qntF32ToAffine b.threshold b.zp b.scale ≤ input.getD (b.offset ⟨h, w, a⟩ + 4) 0
  · rw [if_pos hquant]
    by_cases hscore : b.threshold < b.score input ⟨h, w, a⟩
    · rw [if_pos (show b.Passes input ⟨h, w, a⟩ from ⟨hquant, hscore⟩)]
      exact if_pos hscore
    · rw [if_neg fun hp : b.Passes input ⟨h, w, a⟩ => hscore hp.2]
      exact if_neg hscore
  · rw [if_neg hquant, if_neg fun hp : b.Passes input ⟨h, w, a⟩ => hquant hp.1]

end Cell

/-! ## The whole tensor -/

def Candidates.append (d : Candidates) (l : List Candidate) : Candidates := l.foldl push d

theorem Candidates.toList_append (d : Candidates) (l : List Candidate) :
    (d.append l).toList = d.toList ++ l := by
  induction l generalizing d with
  | nil => exact (List.append_nil _).symm
  | cons c l ih =>
      rw [show d.append (c :: l) = (d.push c).append l from rfl, ih, toList_push, List.append_assoc]
      rfl

theorem foldlM_append {cells : List Cell} {f : Candidates → Cell → Option Candidates}
    {accept : Cell → Bool} {g : Cell → Candidate} {d : Candidates}
    (hf : ∀ c ∈ cells, ∀ d, f d c = some (if accept c then d.push (g c) else d)) :
    cells.foldlM f d = some (d.append ((cells.filter accept).map g)) := by
  induction cells generalizing d with
  | nil => rfl
  | cons c cells ih =>
      have hrest := fun d => ih (d := d) fun c' hc' => hf c' (List.mem_cons_of_mem _ hc')
      rw [List.foldlM_cons, hf c List.mem_cons_self, Option.bind_eq_bind, Option.bind_some, hrest]
      cases hacc : accept c <;> simp [hacc, Candidates.append]

theorem mem_cells {b : Branch} {c : Cell} :
    c ∈ b.cells ↔ c.row < b.gridH.toNat ∧ c.col < b.gridW.toNat ∧ c.anchor < 3 := by
  obtain ⟨row, col, a⟩ := c
  simp [Branch.cells, List.mem_flatMap]

theorem offset_lt {b : Branch} {input : List ℤ} (hfits : b.Fits input) {c : Cell}
    (hc : c ∈ b.cells) : b.offset c + propBoxSize ≤ input.length := by
  obtain ⟨hrow, hcol, ha⟩ := mem_cells.mp hc
  have hcell : c.row * b.gridW.toNat + c.col + 1 ≤ b.gridH.toNat * b.gridW.toNat :=
    calc c.row * b.gridW.toNat + c.col + 1
        ≤ c.row * b.gridW.toNat + b.gridW.toNat := by omega
      _ = (c.row + 1) * b.gridW.toNat := by ring
      _ ≤ b.gridH.toNat * b.gridW.toNat := Nat.mul_le_mul_right _ hrow
  calc b.offset c + propBoxSize
      = (c.row * b.gridW.toNat + c.col) * (propBoxSize * 3) + (c.anchor + 1) * propBoxSize := by
        unfold Branch.offset
        ring
    _ ≤ (c.row * b.gridW.toNat + c.col) * (propBoxSize * 3) + 3 * propBoxSize :=
        Nat.add_le_add_left (Nat.mul_le_mul_right _ ha) _
    _ = (c.row * b.gridW.toNat + c.col + 1) * (propBoxSize * 3) := by ring
    _ ≤ b.gridH.toNat * b.gridW.toNat * (propBoxSize * 3) := Nat.mul_le_mul_right _ hcell
    _ ≤ input.length := hfits

theorem processI8Rv1106_eq_foldlM (b : Branch) (input : List ℤ) (d : Candidates) :
    processI8Rv1106 b input d =
      b.cells.foldlM (fun d c => decodeCell b input c.row c.col d c.anchor) d := by
  unfold processI8Rv1106 Branch.cells
  simp only [foldlM_flatMap, List.foldlM_map]

/-- **What `process_i8_rv1106` appends.** -/
theorem processI8Rv1106_eq {b : Branch} {input : List ℤ} (hgridW : 0 ≤ b.gridW)
    (hfits : b.Fits input) (hanchor : b.anchor.length = 6) (d : Candidates) :
    processI8Rv1106 b input d = some (d.append (b.candidates input)) := by
  rw [processI8Rv1106_eq_foldlM]
  apply foldlM_append
  intro c hc d
  have ha := (mem_cells.mp hc).2.2
  rw [decodeCell_eq hgridW (offset_lt hfits hc) hanchor ha]
  simp only [decide_eq_true_eq]

end CatDect.Postprocess
