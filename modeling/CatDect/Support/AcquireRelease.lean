import CatDect.Support.Interleaving
import Mathlib.Data.List.Count

/-!
# Acquiring and releasing

The trace of what a program acquires and releases.  It is `Paired` if every release is of
something that is held at that moment, and nothing is held at the end.  A resource may be
acquired a second time, before or after it is released: only the numbers have to match.
-/

namespace CatDect.Support

inductive Use (μ : Type*) where
  | acquire (m : μ)
  | release (m : μ)
deriving DecidableEq

open Use

section Held

variable {μ : Type*} [DecidableEq μ] {first rest trace : List (Use μ)} {m n : μ}

/-- How often `m` was acquired and not released; negative after a release too many. -/
def held (trace : List (Use μ)) (m : μ) : ℤ :=
  trace.count (acquire m) - trace.count (release m)

@[simp] theorem held_nil (m : μ) : held [] m = 0 := rfl

theorem held_append (first rest : List (Use μ)) (m : μ) :
    held (first ++ rest) m = held first m + held rest m := by
  unfold held
  rw [List.count_append, List.count_append]
  omega

theorem held_acquire (m n : μ) : held [acquire n] m = if n = m then 1 else 0 := by
  by_cases h : n = m
  · simp [held, h]
  · simp [held, h]

theorem held_release (m n : μ) : held [release n] m = if n = m then -1 else 0 := by
  by_cases h : n = m
  · simp [held, h]
  · simp [held, h]

def ReleasesHeld (before : List (Use μ)) : Use μ → Prop
  | acquire _ => True
  | release m => 0 < held before m

/-- Every release is of something held, and in the end nothing is. -/
structure Paired (trace : List (Use μ)) : Prop where
  releases : EachEntry ReleasesHeld trace
  settled : ∀ m, held trace m = 0

theorem held_nonneg (h : EachEntry ReleasesHeld trace) (m : μ) : 0 ≤ held trace m := by
  induction trace using List.reverseRecOn with
  | nil => exact Int.le_of_eq (held_nil m).symm
  | append_singleton trace use ih =>
      obtain ⟨hbefore, hlast⟩ := eachEntry_append_singleton.mp h
      have hnonneg := ih hbefore
      rw [held_append]
      cases use with
      | acquire n =>
          rw [held_acquire]
          split
          · omega
          · omega
      | release n =>
          rw [held_release]
          by_cases hn : n = m
          · have hpos : 0 < held trace m := hn ▸ hlast
            rw [if_pos hn]
            omega
          · rw [if_neg hn]
            omega

theorem paired_nil : Paired ([] : List (Use μ)) := ⟨eachEntry_nil, held_nil⟩

theorem paired_append_iff (h : ∀ m, held first m = 0) :
    Paired (first ++ rest) ↔ Paired first ∧ Paired rest := by
  have hheld : ∀ trace m, held (first ++ trace) m = held trace m := by
    intro trace m
    rw [held_append, h m, Int.zero_add]
  have hreleases : (fun before use => ReleasesHeld (first ++ before) use) =
      (ReleasesHeld : List (Use μ) → Use μ → Prop) := by
    ext before use
    cases use with
    | acquire n => exact Iff.rfl
    | release n =>
        show 0 < held (first ++ before) n ↔ 0 < held before n
        rw [hheld]
  constructor
  · intro hpaired
    obtain ⟨hfirst, hrest⟩ := eachEntry_append.mp hpaired.releases
    rw [hreleases] at hrest
    exact ⟨⟨hfirst, h⟩, ⟨hrest, fun m => (hheld rest m).symm.trans (hpaired.settled m)⟩⟩
  · intro ⟨hfirst, hrest⟩
    refine ⟨eachEntry_append.mpr ⟨hfirst.releases, ?_⟩,
      fun m => (hheld rest m).trans (hrest.settled m)⟩
    rw [hreleases]
    exact hrest.releases

theorem Paired.append (hfirst : Paired first) (hrest : Paired rest) : Paired (first ++ rest) :=
  (paired_append_iff hfirst.settled).mpr ⟨hfirst, hrest⟩

theorem Paired.flatMap {ι : Type*} {f : ι → List (Use μ)} {l : List ι}
    (h : ∀ i ∈ l, Paired (f i)) : Paired (l.flatMap f) := by
  induction l with
  | nil => exact paired_nil
  | cons i l ih =>
      rw [List.flatMap_cons]
      exact (h i List.mem_cons_self).append
        (ih fun j hj => h j (List.mem_cons_of_mem _ hj))

/-! ### All of a list -/

theorem count_acquire_map (l : List μ) (m : μ) : (l.map acquire).count (acquire m) = l.count m :=
  List.count_map_of_injective l acquire (fun _ _ h => acquire.inj h) m

theorem count_release_map (l : List μ) (m : μ) : (l.map release).count (release m) = l.count m :=
  List.count_map_of_injective l release (fun _ _ h => release.inj h) m

theorem count_acquire_map_release (l : List μ) (m : μ) :
    (l.map release).count (acquire m) = 0 := by
  apply List.count_eq_zero.mpr
  intro h
  obtain ⟨n, -, hn⟩ := List.mem_map.mp h
  exact absurd hn (by simp)

theorem count_release_map_acquire (l : List μ) (m : μ) :
    (l.map acquire).count (release m) = 0 := by
  apply List.count_eq_zero.mpr
  intro h
  obtain ⟨n, -, hn⟩ := List.mem_map.mp h
  exact absurd hn (by simp)

theorem held_map_acquire (l : List μ) (m : μ) : held (l.map acquire) m = l.count m := by
  rw [held, count_acquire_map, count_release_map_acquire]
  omega

theorem held_map_release (l : List μ) (m : μ) : held (l.map release) m = -l.count m := by
  rw [held, count_release_map, count_acquire_map_release]
  omega

theorem held_le_count (trace : List (Use μ)) (m : μ) : held trace m ≤ trace.count (acquire m) := by
  unfold held
  omega

theorem eachEntry_map_acquire (l : List μ) : EachEntry ReleasesHeld (l.map acquire) := by
  intro before use hp
  obtain ⟨m, -, rfl⟩ := List.mem_map.mp
    (hp.subset (List.mem_append_right before (List.mem_singleton.mpr rfl)))
  trivial

theorem eachEntry_map_release {all l : List μ} (h : l.IsPrefix all) :
    EachEntry (fun before use => ReleasesHeld (all.map acquire ++ before) use)
      (l.map release) := by
  induction l using List.reverseRecOn with
  | nil => exact eachEntry_nil
  | append_singleton l m ih =>
      have hcount : (l ++ [m]).count m ≤ all.count m := h.sublist.count_le m
      rw [List.count_append, List.count_singleton_self] at hcount
      rw [List.map_append, List.map_singleton, eachEntry_append_singleton]
      refine ⟨ih ((List.prefix_append _ _).trans h), ?_⟩
      show 0 < held (all.map acquire ++ l.map release) m
      rw [held_append, held_map_acquire, held_map_release]
      omega

theorem paired_acquire_release (l : List μ) : Paired (l.map acquire ++ l.map release) where
  releases := eachEntry_append.mpr
    ⟨eachEntry_map_acquire l, eachEntry_map_release (List.prefix_refl l)⟩
  settled := by
    intro m
    rw [held_append, held_map_acquire, held_map_release]
    omega

theorem not_paired_release (m : μ) (rest : List (Use μ)) : ¬ Paired (release m :: rest) := by
  intro h
  have hheld : 0 < held [] m := h.releases [] (release m) (List.prefix_append [release m] rest)
  exact Int.lt_irrefl 0 hheld

end Held

end CatDect.Support
