import Mathlib.Data.List.Induction

/-!
# Invariant rules for loops over checked accesses

A `for` loop whose body may hit an undefined access is a `foldlM` in `Option`.
The rules below establish at once that the loop runs to its end and that an
invariant, indexed by what has been processed so far, holds there.
-/

namespace CatDect.Support

variable {α β γ : Type}

/-- A loop over a list: the invariant sees the elements already processed. -/
theorem foldlM_list_rule {l : List γ} {f : β → γ → Option β} {s : β}
    (I : List γ → β → Prop) (h0 : I [] s)
    (hstep : ∀ done c rest b, l = done ++ c :: rest → I done b →
      ∃ b', f b c = some b' ∧ I (done ++ [c]) b') :
    ∃ b, l.foldlM f s = some b ∧ I l b := by
  suffices h : ∀ rest done b, l = done ++ rest → I done b →
      ∃ b', rest.foldlM f b = some b' ∧ I l b' from h l [] s rfl h0
  intro rest
  induction rest with
  | nil =>
      intro done b hl hb
      rw [List.append_nil] at hl
      exact ⟨b, rfl, hl ▸ hb⟩
  | cons c rest ih =>
      intro done b hl hb
      obtain ⟨b₁, hf, hb₁⟩ := hstep done c rest b hl hb
      obtain ⟨b₂, hfold, hb₂⟩ := ih (done ++ [c]) b₁ (by simpa using hl) hb₁
      exact ⟨b₂, by simp [List.foldlM_cons, hf, hfold], hb₂⟩

theorem foldlM_total {l : List γ} {f : β → γ → Option β} (h : ∀ c ∈ l, ∀ b, ∃ b', f b c = some b')
    (s : β) : ∃ b, l.foldlM f s = some b := by
  obtain ⟨b, hb, -⟩ := foldlM_list_rule (l := l) (f := f) (s := s) (fun _ _ => True) trivial (by
    intro done c rest b hsplit _
    have hmem : c ∈ l := by
      rw [hsplit]
      exact List.mem_append_right _ List.mem_cons_self
    obtain ⟨b', hb'⟩ := h c hmem b
    exact ⟨b', hb', trivial⟩)
  exact ⟨b, hb⟩

theorem foldl_list_rule {l : List γ} {f : β → γ → β} {s : β} (I : List γ → β → Prop) (h0 : I [] s)
    (hstep : ∀ done c b, I done b → I (done ++ [c]) (f b c)) : I l (l.foldl f s) := by
  induction l using List.reverseRecOn with
  | nil => exact h0
  | append_singleton done c ih =>
      rw [List.foldl_append, List.foldl_cons, List.foldl_nil]
      exact hstep done c _ ih

theorem foldlM_invariant {l : List γ} {f : β → γ → Option β} {s s' : β} (I : β → Prop)
    (hfold : l.foldlM f s = some s') (h0 : I s)
    (hstep : ∀ b c b', f b c = some b' → I b → I b') : I s' := by
  induction l generalizing s with
  | nil => exact Option.some.inj hfold ▸ h0
  | cons c l ih =>
      rw [List.foldlM_cons] at hfold
      obtain ⟨b, hb, hrest⟩ := Option.bind_eq_some_iff.mp hfold
      exact ih hrest (hstep s c b hb h0)

theorem range'_split {start count i : ℕ} {done rest : List ℕ}
    (h : List.range' start count = done ++ i :: rest) :
    i = start + done.length ∧ i < start + count := by
  have hlen := congrArg List.length h
  rw [List.length_range', List.length_append, List.length_cons] at hlen
  have hget : (List.range' start count)[done.length]? = some i := by
    rw [h]
    simp
  rw [List.getElem?_range' (by omega)] at hget
  have hi : i = start + done.length := by simpa using hget.symm
  omega

/-- A counting loop from `start` over `count` values. -/
theorem foldlM_range_rule (start count : ℕ) {f : β → ℕ → Option β} {s : β}
    (I : ℕ → β → Prop) (h0 : I start s)
    (hstep : ∀ i b, start ≤ i → i < start + count → I i b → ∃ b', f b i = some b' ∧ I (i + 1) b') :
    ∃ b, (List.range' start count).foldlM f s = some b ∧ I (start + count) b := by
  have hrule := foldlM_list_rule (l := List.range' start count) (f := f) (s := s)
    (fun done b => I (start + done.length) b) (by simpa using h0) ?_
  · simpa using hrule
  · intro done i rest b hl hb
    obtain ⟨hi, hlt⟩ := range'_split hl
    obtain ⟨b', hf, hb'⟩ := hstep i b (by omega) hlt (hi ▸ hb)
    refine ⟨b', hf, ?_⟩
    rw [List.length_append, List.length_singleton, ← Nat.add_assoc, ← hi]
    exact hb'

theorem foldlM_comm {l : List γ} {f : α → γ → Option α} {g : β → γ → Option β} (φ : α → β)
    (h : ∀ a c, g (φ a) c = (f a c).map φ) (s : α) : l.foldlM g (φ s) = (l.foldlM f s).map φ := by
  induction l generalizing s with
  | nil => rfl
  | cons c l ih =>
      rw [List.foldlM_cons, List.foldlM_cons, h]
      cases f s c with
      | none => rfl
      | some a => exact ih a

/-- A loop whose rounds follow those of another one, from related states. -/
theorem foldlM_simulates {l : List γ} {f : α → γ → Option α} {g : β → γ → Option β}
    (R : α → β → Prop)
    (hstep : ∀ a c a' b, f a c = some a' → R a b → ∃ b', g b c = some b' ∧ R a' b') {a a' : α}
    {b : β} (hfold : l.foldlM f a = some a') (hR : R a b) :
    ∃ b', l.foldlM g b = some b' ∧ R a' b' := by
  induction l generalizing a b with
  | nil => exact ⟨b, rfl, Option.some.inj hfold ▸ hR⟩
  | cons c l ih =>
      rw [List.foldlM_cons] at hfold
      obtain ⟨a₁, ha₁, hrest⟩ := Option.bind_eq_some_iff.mp hfold
      obtain ⟨b₁, hb₁, hR₁⟩ := hstep a c a₁ b ha₁ hR
      obtain ⟨b', hb', hR'⟩ := ih hrest hR₁
      refine ⟨b', ?_, hR'⟩
      rw [List.foldlM_cons, hb₁, Option.bind_eq_bind, Option.bind_some, hb']

theorem foldlM_append_some {l l' : List γ} {f : β → γ → Option β} {s s' : β}
    (h : (l ++ l').foldlM f s = some s') :
    ∃ b, l.foldlM f s = some b ∧ l'.foldlM f b = some s' := by
  rw [List.foldlM_append] at h
  exact Option.bind_eq_some_iff.mp h

theorem mapM_cases (f : α → Option β) (l : List α) :
    (∃ a ∈ l, f a = none) ∧ l.mapM f = none ∨
      (¬ ∃ a ∈ l, f a = none) ∧ ∃ bs, l.mapM f = some bs ∧ bs.length = l.length := by
  induction l with
  | nil => exact .inr ⟨by simp, [], rfl, rfl⟩
  | cons a l ih =>
      rw [List.mapM_cons]
      cases ha : f a with
      | none => exact .inl ⟨⟨a, List.mem_cons_self, ha⟩, rfl⟩
      | some b =>
          rcases ih with ⟨⟨a', hmem, ha'⟩, hnone⟩ | ⟨hall, bs, hbs, hlength⟩
          · left
            rw [hnone]
            exact ⟨⟨a', List.mem_cons_of_mem _ hmem, ha'⟩, rfl⟩
          · right
            rw [hbs]
            refine ⟨?_, b :: bs, rfl, congrArg (· + 1) hlength⟩
            rintro ⟨a', hmem, ha'⟩
            rcases List.mem_cons.mp hmem with rfl | hmem
            · exact absurd (ha.symm.trans ha') (by simp)
            · exact hall ⟨a', hmem, ha'⟩

theorem foldlM_flatMap {l : List α} {g : α → List γ} {f : β → γ → Option β} {s : β} :
    (l.flatMap g).foldlM f s = l.foldlM (fun b a => (g a).foldlM f b) s := by
  induction l generalizing s with
  | nil => rfl
  | cons a l ih =>
      rw [List.flatMap_cons, List.foldlM_append, List.foldlM_cons]
      congr 1
      funext b
      exact ih

/-! ## Loops that may return from the function -/

/-- The outcome of a round: go on with the next state, or return. -/
inductive Round (σ ρ : Type) where
  | next (s : σ)
  | ret (r : ρ)

section Round

variable {σ ρ : Type} {f : σ → γ → Option (Round σ ρ)}

def loopRounds (f : σ → γ → Option (Round σ ρ)) : List γ → σ → Option (Round σ ρ)
  | [], s => some (.next s)
  | c :: l, s => do
      match ← f s c with
      | .next s => loopRounds f l s
      | .ret r => some (.ret r)

/-- The outcome satisfies `P` if the loop goes on, and `Q` if the function returns. -/
def Round.Satisfies (P : σ → Prop) (Q : ρ → Prop) : Round σ ρ → Prop
  | .next s => P s
  | .ret r => Q r

theorem loopRounds_range_rule {n : ℕ} {f : σ → ℕ → Option (Round σ ρ)} {s : σ}
    {out : Round σ ρ} (I : ℕ → σ → Prop) (Q : ρ → Prop)
    (hrun : loopRounds f (List.range n) s = some out) (h0 : I 0 s)
    (hstep : ∀ i s out, f s i = some out → I i s → out.Satisfies (I (i + 1)) Q) :
    out.Satisfies (I n) Q := by
  suffices h : ∀ count start s, loopRounds f (List.range' start count) s = some out → I start s →
      out.Satisfies (I (start + count)) Q by
    rw [List.range_eq_range'] at hrun
    have := h n 0 s hrun h0
    rwa [Nat.zero_add] at this
  intro count
  induction count with
  | zero =>
      intro start s hrest hs
      rw [← Option.some.inj hrest]
      exact hs
  | succ count ih =>
      intro start s hrest hs
      obtain ⟨round, hround, hrest⟩ := Option.bind_eq_some_iff.mp hrest
      have hnext := hstep start s round hround hs
      cases round with
      | next s' =>
          have := ih (start + 1) s' hrest hnext
          rwa [Nat.add_assoc, Nat.add_comm 1] at this
      | ret r =>
          rw [← Option.some.inj hrest]
          exact hnext

end Round

end CatDect.Support
