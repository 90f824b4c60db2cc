import Mathlib.Data.List.Basic
import Mathlib.Data.List.Nodup
import Mathlib.Data.List.Perm.Basic
import Mathlib.Logic.Equiv.Basic
import Mathlib.Logic.Function.Basic

/-!
# Vectors with checked subscripts

A C++ vector is a `List`, subscripted by an `int`.  An access outside the
vector is undefined behaviour, which the embedding makes visible: `readAt` and
`writeAt` return `none` there, and a function that returns `some` has performed
no such access.

The second half describes in-place rearrangement: `RearrangedOn lo up f g` says
that the cells `g` are the cells `f` permuted inside `lo .. up`.  It deliberately
does not mention any particular algorithm.
-/

namespace CatDect.Support

variable {α β : Type*}

/-- `v[i]` as an rvalue. -/
def readAt (v : List α) (i : ℤ) : Option α :=
  if 0 ≤ i then v[i.toNat]? else none

def writeAt (v : List α) (i : ℤ) (a : α) : Option (List α) :=
  if 0 ≤ i ∧ i < v.length then some (v.set i.toNat a) else none

@[simp] theorem readAt_natCast (v : List α) (n : ℕ) : readAt v n = v[n]? := by
  simp [readAt]

theorem readAt_eq_some_iff {v : List α} {i : ℤ} {a : α} :
    readAt v i = some a ↔ ∃ n : ℕ, i = n ∧ v[n]? = some a := by
  constructor
  · intro h
    unfold readAt at h
    split at h
    · exact ⟨i.toNat, by omega, h⟩
    · simp at h
  · rintro ⟨n, rfl, h⟩
    simpa using h

theorem mem_of_readAt {v : List α} {i : ℤ} {a : α} (h : readAt v i = some a) : a ∈ v := by
  obtain ⟨n, -, hn⟩ := readAt_eq_some_iff.mp h
  exact List.mem_of_getElem? hn

theorem exists_readAt {v : List α} {i : ℤ} (h0 : 0 ≤ i) (hi : i < v.length) :
    ∃ a, readAt v i = some a := by
  have hlt : i.toNat < v.length := by omega
  exact ⟨v[i.toNat], by rw [readAt, if_pos h0, List.getElem?_eq_getElem hlt]⟩

theorem writeAt_natCast {v : List α} {n : ℕ} (h : n < v.length) (a : α) :
    writeAt v n a = some (v.set n a) := by
  rw [writeAt, if_pos (by omega)]
  simp

theorem exists_writeAt {v : List α} {i : ℤ} (h0 : 0 ≤ i) (hi : i < v.length) (a : α) :
    ∃ w, writeAt v i a = some w ∧ w.length = v.length ∧
      readAt w = Function.update (readAt v) i (some a) := by
  refine ⟨v.set i.toNat a, by rw [writeAt, if_pos ⟨h0, hi⟩], by simp, ?_⟩
  ext k : 1
  by_cases hk : k = i
  · subst hk
    rw [Function.update_self, readAt, if_pos h0]
    exact List.getElem?_set_self (by omega)
  · rw [Function.update_of_ne hk]
    unfold readAt
    split
    · exact List.getElem?_set_ne (by omega)
    · rfl

theorem readAt_map (f : α → β) (v : List α) (i : ℤ) : readAt (v.map f) i = (readAt v i).map f := by
  unfold readAt
  split
  · exact List.getElem?_map
  · rfl

/-! ## A vector as part of a larger one -/

section Window

variable {pre v post : List α} {i : ℤ} {a : α}

theorem readAt_window (h : readAt v i = some a) :
    readAt (pre ++ v ++ post) (pre.length + i) = some a := by
  obtain ⟨n, rfl, hn⟩ := readAt_eq_some_iff.mp h
  have hlt : n < v.length := (List.getElem?_eq_some_iff.mp hn).1
  have hcast : (pre.length : ℤ) + n = ((pre.length + n : ℕ) : ℤ) := by omega
  rw [hcast, readAt_natCast, List.append_assoc, List.getElem?_append_right (by omega),
    Nat.add_sub_cancel_left, List.getElem?_append_left hlt, hn]

theorem writeAt_window {w : List α} (h : writeAt v i a = some w) :
    writeAt (pre ++ v ++ post) (pre.length + i) a = some (pre ++ w ++ post) := by
  unfold writeAt at h
  split at h
  · rename_i hi
    have hlt : i.toNat < v.length := by omega
    have hcast : (pre.length : ℤ) + i = ((pre.length + i.toNat : ℕ) : ℤ) := by omega
    rw [hcast, writeAt_natCast (by simp only [List.length_append]; omega), List.append_assoc,
      List.set_append_right _ _ (by omega), Nat.add_sub_cancel_left, List.set_append_left _ _ hlt,
      ← Option.some.inj h, List.append_assoc]
  · exact absurd h (by simp)

end Window

theorem readAt_zip (v : List α) (w : List β) (i : ℤ) :
    readAt (v.zip w) i = (readAt v i).bind fun a => (readAt w i).map fun b => (a, b) := by
  unfold readAt
  split
  · rw [List.zip, List.getElem?_zipWith]
    cases v[i.toNat]? <;> cases w[i.toNat]? <;> rfl
  · rfl

/-! ## Rearrangement inside a range -/

/-- The cells `g` are the cells `f`, permuted among the positions `lo .. up`. -/
def RearrangedOn (lo up : ℤ) (f g : ℤ → β) : Prop :=
  ∃ σ : Equiv.Perm ℤ, (∀ i, i < lo ∨ up < i → σ i = i) ∧ ∀ i, g i = f (σ i)

namespace RearrangedOn

variable {lo up : ℤ} {f g k : ℤ → β}

theorem refl (lo up : ℤ) (f : ℤ → β) : RearrangedOn lo up f f :=
  ⟨Equiv.refl ℤ, fun _ _ => rfl, fun _ => rfl⟩

theorem trans (hfg : RearrangedOn lo up f g) (hgk : RearrangedOn lo up g k) :
    RearrangedOn lo up f k := by
  obtain ⟨σ, hσ, hg⟩ := hfg
  obtain ⟨τ, hτ, hk⟩ := hgk
  refine ⟨τ.trans σ, ?_, ?_⟩
  · intro i hi
    rw [Equiv.trans_apply, hτ i hi, hσ i hi]
  · intro i
    rw [hk i, hg (τ i), Equiv.trans_apply]

theorem widen {lo' up' : ℤ} (h : RearrangedOn lo up f g) (hlo : lo' ≤ lo) (hup : up ≤ up') :
    RearrangedOn lo' up' f g := by
  obtain ⟨σ, hσ, hg⟩ := h
  exact ⟨σ, fun i hi => hσ i (by omega), hg⟩

theorem frame (h : RearrangedOn lo up f g) {i : ℤ} (hi : i < lo ∨ up < i) : g i = f i := by
  obtain ⟨σ, hσ, hg⟩ := h
  rw [hg i, hσ i hi]

theorem perm_mem_range {σ : Equiv.Perm ℤ} (hσ : ∀ i, i < lo ∨ up < i → σ i = i) {i : ℤ}
    (hi : lo ≤ i ∧ i ≤ up) : lo ≤ σ i ∧ σ i ≤ up := by
  by_contra hout
  have hfix : σ (σ i) = σ i := hσ (σ i) (by omega)
  have heq : σ i = i := σ.injective hfix
  rw [heq] at hout
  exact hout hi

theorem forall_range {P : β → Prop} (h : RearrangedOn lo up f g)
    (hf : ∀ i, lo ≤ i → i ≤ up → P (f i)) : ∀ i, lo ≤ i → i ≤ up → P (g i) := by
  obtain ⟨σ, hσ, hg⟩ := h
  intro i hl hh
  have hmem := perm_mem_range hσ ⟨hl, hh⟩
  rw [hg i]
  exact hf (σ i) hmem.1 hmem.2

/-- Moving the hole of a hole-based loop from `h` to `h'` exchanges two cells of
the vector seen with the hole filled by `x`. -/
theorem move_hole (f : ℤ → β) {h h' : ℤ} (hh : lo ≤ h ∧ h ≤ up) (hh' : lo ≤ h' ∧ h' ≤ up)
    (x : β) :
    RearrangedOn lo up (Function.update f h x)
      (Function.update (Function.update f h (f h')) h' x) := by
  refine ⟨Equiv.swap h h', fun i hi => Equiv.swap_apply_of_ne_of_ne (by omega) (by omega), ?_⟩
  intro i
  by_cases hi' : i = h'
  · subst hi'
    rw [Equiv.swap_apply_right, Function.update_self, Function.update_self]
  · by_cases hih : i = h
    · subst hih
      rw [Equiv.swap_apply_left, Function.update_of_ne hi', Function.update_self,
        Function.update_of_ne (Ne.symm hi')]
    · rw [Equiv.swap_apply_of_ne_of_ne hih hi', Function.update_of_ne hi',
        Function.update_of_ne hih, Function.update_of_ne hih]

theorem map {γ : Type*} {lo up : ℤ} {f g : ℤ → β} (φ : β → γ) (h : RearrangedOn lo up f g) :
    RearrangedOn lo up (fun i => φ (f i)) (fun i => φ (g i)) := by
  obtain ⟨σ, hσ, hg⟩ := h
  exact ⟨σ, hσ, fun i => congrArg φ (hg i)⟩

theorem list_perm {v w : List α} (hlen : w.length = v.length)
    (h : RearrangedOn 0 (v.length - 1) (readAt v) (readAt w)) : w.Perm v := by
  obtain ⟨σ, hσ, hread⟩ := h
  have hmem : ∀ k : ℕ, k < v.length → ((σ k).toNat : ℤ) = σ k ∧ (σ k).toNat < v.length := by
    intro k hk
    have hrange := perm_mem_range hσ (i := (k : ℤ)) (by omega)
    omega
  have hcells : ∀ u : List α, u.map some = (List.range u.length).map fun k : ℕ => readAt u k := by
    intro u
    apply List.ext_getElem?
    intro k
    by_cases hk : k < u.length
    · simp [List.getElem?_range hk, List.getElem?_eq_getElem hk]
    · have hle : u.length ≤ k := Nat.le_of_not_lt hk
      simp [hle]
  have hmoved : w.map some =
      ((List.range v.length).map fun k : ℕ => (σ k).toNat).map fun k : ℕ => readAt v k := by
    rw [hcells, hlen, List.map_map]
    apply List.map_congr_left
    intro k hk
    rw [hread, Function.comp_apply, (hmem k (List.mem_range.mp hk)).1]
  have hperm : ((List.range v.length).map fun k : ℕ => (σ k).toNat).Perm (List.range v.length) := by
    have hnodup : ((List.range v.length).map fun k : ℕ => (σ k).toNat).Nodup := by
      apply List.Nodup.map_on _ List.nodup_range
      intro j hj k hk heq
      have hj' := (hmem j (List.mem_range.mp hj)).1
      have hk' := (hmem k (List.mem_range.mp hk)).1
      have hσeq : σ j = σ k := by rw [← hj', ← hk', heq]
      exact_mod_cast σ.injective hσeq
    have hsub : ((List.range v.length).map fun k : ℕ => (σ k).toNat) ⊆ List.range v.length := by
      intro n hn
      obtain ⟨k, hk, rfl⟩ := List.mem_map.mp hn
      exact List.mem_range.mpr (hmem k (List.mem_range.mp hk)).2
    exact (List.subperm_of_subset hnodup hsub).perm_of_length_le (by simp)
  have hsome : (w.map some).Perm (v.map some) := by
    rw [hmoved, hcells v]
    exact hperm.map _
  exact (List.map_perm_map_iff (Option.some_injective α)).mp hsome

end RearrangedOn

end CatDect.Support
