import Mathlib.Data.List.Basic

/-!
# Reading from a buffer

A reader takes what it needs from the front of a list.  It may find the input malformed, or
run past its end, which is kept apart.  `Reads r l a` says that `r` takes exactly `l` and
makes `a` of it, whatever comes after; what is written in sequence can be read in sequence.
-/

namespace CatDect.Support

/-- What became of a read: a value and what is left, a refusal, or an access past the end. -/
inductive Outcome (σ : Type*) (α : Type)
  | done (a : α) (rest : List σ)
  | refused
  | outside
deriving DecidableEq

def Reader (σ : Type*) (α : Type) := List σ → Outcome σ α

namespace Reader

variable {σ : Type*} {α β : Type}

protected def pure (a : α) : Reader σ α := fun l => .done a l

protected def bind (r : Reader σ α) (f : α → Reader σ β) : Reader σ β := fun l =>
  match r l with
  | .done a rest => f a rest
  | .refused => .refused
  | .outside => .outside

instance : Monad (Reader σ) where
  pure := Reader.pure
  bind := Reader.bind

def item {σ : Type} : Reader σ σ
  | [] => .outside
  | c :: rest => .done c rest

def items {σ : Type} (n : ℕ) : Reader σ (List σ) := fun l =>
  if n ≤ l.length then .done (l.take n) (l.drop n) else .outside

def remaining : Reader σ ℕ := fun l => .done l.length l

def refuse : Reader σ α := fun _ => .refused

def peek (r : Reader σ α) : Reader σ α := fun l =>
  match r l with
  | .done a _ => .done a l
  | .refused => .refused
  | .outside => .outside

theorem bind_eq (r : Reader σ α) (f : α → Reader σ β) : r >>= f = Reader.bind r f := rfl

theorem bind_done_iff {r : Reader σ α} {f : α → Reader σ β} {l rest : List σ} {b : β} :
    (r >>= f) l = .done b rest ↔ ∃ a mid, r l = .done a mid ∧ f a mid = .done b rest := by
  rw [bind_eq, Reader.bind]
  cases h : r l with
  | done a mid =>
      constructor
      · exact fun hf => ⟨a, mid, rfl, hf⟩
      · rintro ⟨a', mid', heq, hf⟩
        injection heq with ha hmid
        rw [ha, hmid]
        exact hf
  | refused | outside =>
      constructor
      · exact fun hf => nomatch hf
      · rintro ⟨a', mid', heq, -⟩
        exact nomatch heq

theorem pure_done_iff {l rest : List σ} {a b : α} :
    (pure a : Reader σ α) l = .done b rest ↔ a = b ∧ l = rest := by
  show Outcome.done a l = .done b rest ↔ _
  rw [Outcome.done.injEq]

theorem item_bind_cons {σ : Type} (f : σ → Reader σ α) (c : σ) (rest : List σ) :
    (item >>= f) (c :: rest) = f c rest := rfl

theorem item_done_iff {σ : Type} {l rest : List σ} {c : σ} :
    item l = .done c rest ↔ l = c :: rest := by
  cases l with
  | nil => simp [item]
  | cons d l => simp [item]

theorem items_done_iff {σ : Type} {n : ℕ} {l rest taken : List σ} :
    items n l = .done taken rest ↔ l = taken ++ rest ∧ taken.length = n := by
  unfold items
  constructor
  · split
    · intro h
      injection h with htake hdrop
      rw [← htake, ← hdrop, List.take_append_drop, List.length_take]
      exact ⟨rfl, Nat.min_eq_left ‹_›⟩
    · exact fun h => nomatch h
  · rintro ⟨rfl, rfl⟩
    rw [if_pos (by rw [List.length_append]; omega), List.take_left, List.drop_left]

theorem remaining_done_iff {l rest : List σ} {n : ℕ} :
    (remaining : Reader σ ℕ) l = .done n rest ↔ l.length = n ∧ l = rest := by
  show Outcome.done l.length l = .done n rest ↔ _
  rw [Outcome.done.injEq]

theorem peek_done_iff {r : Reader σ α} {l rest : List σ} {a : α} :
    peek r l = .done a rest ↔ (∃ mid, r l = .done a mid) ∧ l = rest := by
  unfold peek
  cases h : r l with
  | done b mid =>
      constructor
      · intro heq
        injection heq with ha hl
        exact ⟨⟨mid, by rw [ha]⟩, hl⟩
      · rintro ⟨⟨mid', heq⟩, rfl⟩
        injection heq with ha
        rw [ha]
  | refused | outside =>
      constructor
      · exact fun hf => nomatch hf
      · rintro ⟨⟨mid', heq⟩, -⟩
        exact nomatch heq

end Reader

open Reader

section Reads

variable {σ : Type*} {α β : Type}

/-- `r` takes exactly `l` and makes `a` of it. -/
def Reads (r : Reader σ α) (l : List σ) (a : α) : Prop := ∀ rest, r (l ++ rest) = .done a rest

theorem reads_pure (a : α) : Reads (pure a : Reader σ α) [] a := fun _ => rfl

theorem reads_item {σ : Type} (c : σ) : Reads item [c] c := fun _ => rfl

theorem reads_items {σ : Type} (l : List σ) : Reads (items l.length) l l :=
  fun _ => items_done_iff.mpr ⟨rfl, rfl⟩

theorem Reads.bind {r : Reader σ α} {f : α → Reader σ β} {l m : List σ} {a : α} {b : β}
    (hr : Reads r l a) (hf : Reads (f a) m b) : Reads (r >>= f) (l ++ m) b := by
  intro rest
  rw [List.append_assoc]
  exact bind_done_iff.mpr ⟨a, m ++ rest, hr _, hf rest⟩

theorem Reads.map {r : Reader σ α} {l : List σ} {a : α} (hr : Reads r l a) (g : α → β) :
    Reads (do let a ← r; pure (g a)) l (g a) := by
  have h := hr.bind (f := fun a => (pure (g a) : Reader σ β)) (reads_pure (g a))
  rwa [List.append_nil] at h

/-- How much is left can be looked at first, if the answer makes no difference. -/
theorem reads_remaining {f : ℕ → Reader σ β} {l : List σ} {b : β}
    (hf : ∀ n, l.length ≤ n → Reads (f n) l b) : Reads (remaining >>= f) l b := by
  intro rest
  apply bind_done_iff.mpr
  refine ⟨_, _, rfl, hf _ ?_ rest⟩
  rw [List.length_append]
  omega

theorem reads_peek {r : Reader σ α} {f : α → Reader σ β} {l : List σ} {a : α} {b : β}
    {l₁ l₂ : List σ} (hl : l = l₁ ++ l₂) (hr : Reads r l₁ a) (hf : Reads (f a) l b) :
    Reads (peek r >>= f) l b := by
  intro rest
  apply bind_done_iff.mpr
  refine ⟨a, l ++ rest, peek_done_iff.mpr ⟨⟨l₂ ++ rest, ?_⟩, rfl⟩, hf rest⟩
  rw [hl, List.append_assoc]
  exact hr _

def Takes (r : Reader σ α) (n : ℕ) : Prop :=
  ∀ l a rest, r l = .done a rest → ∃ used, l = used ++ rest ∧ used.length = n

theorem takes_pure (a : α) : Takes (pure a : Reader σ α) 0 := by
  intro l b rest h
  exact ⟨[], (pure_done_iff.mp h).2, rfl⟩

theorem takes_item {σ : Type} : Takes (item : Reader σ σ) 1 :=
  fun _ c _ h => ⟨[c], item_done_iff.mp h, rfl⟩

theorem takes_items {σ : Type} (n : ℕ) : Takes (items n : Reader σ (List σ)) n :=
  fun _ taken _ h => ⟨taken, items_done_iff.mp h⟩

theorem Takes.bind {r : Reader σ α} {f : α → Reader σ β} {m n : ℕ} (hr : Takes r m)
    (hf : ∀ a, Takes (f a) n) : Takes (r >>= f) (m + n) := by
  intro l b rest h
  obtain ⟨a, mid, hra, hfa⟩ := bind_done_iff.mp h
  obtain ⟨u, rfl, hu⟩ := hr l a mid hra
  obtain ⟨v, rfl, hv⟩ := hf a mid b rest hfa
  exact ⟨u ++ v, (List.append_assoc u v rest).symm, by rw [List.length_append, hu, hv]⟩

end Reads

/-! ## Readers of streams -/

section Streams

variable {σ : Type*} {α β : Type}

/-- More input does not change what has been read, and a reader that ran out of input reads
on beyond what was there. -/
structure Steady (r : Reader σ α) : Prop where
  done : ∀ l a rest m, r l = .done a rest → r (l ++ m) = .done a (rest ++ m)
  refused : ∀ l m, r l = .refused → r (l ++ m) = .refused
  outside : ∀ l m a rest, r l = .outside → r (l ++ m) = .done a rest → rest.length < m.length
  shrinks : ∀ l a rest, r l = .done a rest → rest.length ≤ l.length

theorem steady_pure (a : α) : Steady (pure a : Reader σ α) where
  done := by
    intro l b rest m h
    obtain ⟨rfl, rfl⟩ := pure_done_iff.mp h
    rfl
  refused := fun _ _ h => nomatch h
  outside := fun _ _ _ _ h => nomatch h
  shrinks := by
    intro l b rest h
    exact Nat.le_of_eq (congrArg List.length (pure_done_iff.mp h).2.symm)

theorem steady_refuse : Steady (refuse : Reader σ α) where
  done := fun _ _ _ _ h => nomatch h
  refused := fun _ _ _ => rfl
  outside := fun _ _ _ _ h => nomatch h
  shrinks := fun _ _ _ h => nomatch h

theorem steady_item {σ : Type} : Steady (item : Reader σ σ) where
  done := by
    intro l c rest m h
    rw [item_done_iff.mp h]
    rfl
  refused := by
    intro l m h
    cases l with
    | nil => exact nomatch h
    | cons c l => exact nomatch h
  outside := by
    intro l m c rest h hdone
    cases l with
    | nil =>
        rw [List.nil_append] at hdone
        rw [item_done_iff.mp hdone]
        exact Nat.lt_succ_self _
    | cons c l => exact nomatch h
  shrinks := by
    intro l c rest h
    rw [item_done_iff.mp h]
    exact Nat.le_succ _

theorem steady_items {σ : Type} (n : ℕ) : Steady (items n : Reader σ (List σ)) where
  done := by
    intro l taken rest m h
    obtain ⟨rfl, hn⟩ := items_done_iff.mp h
    exact items_done_iff.mpr ⟨List.append_assoc taken rest m, hn⟩
  refused := by
    intro l m h
    unfold items at h
    split at h <;> exact nomatch h
  outside := by
    intro l m taken rest h hdone
    obtain ⟨heq, hn⟩ := items_done_iff.mp hdone
    have hlen := congrArg List.length heq
    rw [List.length_append, List.length_append] at hlen
    unfold items at h
    split at h
    · exact nomatch h
    · omega
  shrinks := by
    intro l taken rest h
    rw [(items_done_iff.mp h).1, List.length_append]
    omega

theorem Steady.bind {r : Reader σ α} {f : α → Reader σ β} (hr : Steady r)
    (hf : ∀ a, Steady (f a)) : Steady (r >>= f) where
  done := by
    intro l b rest m h
    obtain ⟨a, mid, hra, hfa⟩ := bind_done_iff.mp h
    exact bind_done_iff.mpr ⟨a, mid ++ m, hr.done l a mid m hra, (hf a).done mid b rest m hfa⟩
  refused := by
    intro l m h
    rw [bind_eq, Reader.bind] at h ⊢
    cases hra : r l with
    | done a mid =>
        rw [hra] at h
        rw [hr.done l a mid m hra]
        exact (hf a).refused mid m h
    | refused => rw [hr.refused l m hra]
    | outside =>
        rw [hra] at h
        exact nomatch h
  outside := by
    intro l m b rest h hdone
    obtain ⟨a', mid', hra', hfa'⟩ := bind_done_iff.mp hdone
    rw [bind_eq, Reader.bind] at h
    cases hra : r l with
    | done a mid =>
        rw [hra] at h
        have heq := hr.done l a mid m hra
        rw [hra'] at heq
        injection heq with ha hmid
        rw [ha, hmid] at hfa'
        exact (hf a).outside mid m b rest h hfa'
    | refused =>
        rw [hra] at h
        exact nomatch h
    | outside =>
        have hless := hr.outside l m a' mid' hra hra'
        exact Nat.lt_of_le_of_lt ((hf a').shrinks mid' b rest hfa') hless
  shrinks := by
    intro l b rest h
    obtain ⟨a, mid, hra, hfa⟩ := bind_done_iff.mp h
    exact Nat.le_trans ((hf a).shrinks mid b rest hfa) (hr.shrinks l a mid hra)

theorem Steady.exact {r : Reader σ α} (hr : Steady r) {l m : List σ} {a : α}
    (h : r (l ++ m) = .done a m) : r l = .done a [] := by
  cases hl : r l with
  | done b rest =>
      have heq := hr.done l b rest m hl
      rw [h] at heq
      injection heq with ha hrest
      rw [ha, List.self_eq_append_left.mp hrest]
  | refused => exact nomatch (hr.refused l m hl).symm.trans h
  | outside => exact absurd (hr.outside l m a m hl h) (Nat.lt_irrefl _)

/-- `l` is read as `as`, one after another, up to `rest`. -/
inductive ReadsOff (r : Reader σ α) (l : List σ) : List α → List σ → Prop
  | nil : ReadsOff r l [] l
  | snoc {as : List α} {a : α} {mid rest : List σ} :
      ReadsOff r l as mid → r mid = .done a rest → ReadsOff r l (as ++ [a]) rest

theorem ReadsOff.append {r : Reader σ α} (hr : Steady r) {l rest : List σ} {as : List α}
    (h : ReadsOff r l as rest) (m : List σ) : ReadsOff r (l ++ m) as (rest ++ m) := by
  induction h with
  | nil => exact .nil
  | snoc _ hread ih => exact .snoc ih (hr.done _ _ _ m hread)

theorem ReadsOff.eq_of_length {r : Reader σ α} {l rest rest' : List σ} {as as' : List α}
    (h : ReadsOff r l as rest) (h' : ReadsOff r l as' rest') (hlen : as.length = as'.length) :
    as = as' ∧ rest = rest' := by
  induction h generalizing as' rest' with
  | nil =>
      cases h' with
      | nil => exact ⟨rfl, rfl⟩
      | snoc _ _ =>
          rw [List.length_append] at hlen
          exact nomatch hlen
  | snoc _ hread ih =>
      rw [List.length_append] at hlen
      cases h' with
      | nil => exact nomatch hlen
      | snoc h' hread' =>
          rw [List.length_append] at hlen
          obtain ⟨rfl, rfl⟩ := ih h' (Nat.add_right_cancel hlen)
          rw [hread] at hread'
          injection hread' with ha hrest
          exact ⟨by rw [ha], hrest⟩

theorem ReadsOff.length_le {r : Reader σ α} {l rest rest' : List σ} {as as' : List α}
    (h : ReadsOff r l as rest) (hstuck : ∀ a m, r rest ≠ .done a m)
    (h' : ReadsOff r l as' rest') : as'.length ≤ as.length := by
  induction h' with
  | nil => exact Nat.zero_le _
  | @snoc before a mid _ h' hread ih =>
      rw [List.length_append]
      apply Nat.lt_of_le_of_ne ih
      intro hlen
      obtain ⟨-, rfl⟩ := h.eq_of_length h' hlen.symm
      exact hstuck _ _ hread

theorem ReadsOff.isPrefix {r : Reader σ α} {l rest rest' : List σ} {as as' : List α}
    (h : ReadsOff r l as rest) (h' : ReadsOff r l as' rest') (hlen : as.length ≤ as'.length) :
    as <+: as' := by
  induction h' with
  | nil =>
      have hnil : as = [] := List.length_eq_zero_iff.mp (Nat.le_zero.mp hlen)
      subst hnil
      exact List.prefix_refl []
  | @snoc before a mid _ h' hread ih =>
      rcases Nat.lt_or_ge before.length as.length with hlt | hge
      · have hle : (before ++ [a]).length ≤ as.length := by
          rw [List.length_append, List.length_singleton]
          exact hlt
        have heq : as = before ++ [a] :=
          (h.eq_of_length (.snoc h' hread) (Nat.le_antisymm hlen hle)).1
        subst heq
        exact List.prefix_refl (before ++ [a])
      · exact (ih hge).trans (List.prefix_append before [a])

theorem ReadsOff.unique {r : Reader σ α} {l rest rest' : List σ} {as as' : List α}
    (h : ReadsOff r l as rest) (hstuck : ∀ a m, r rest ≠ .done a m)
    (h' : ReadsOff r l as' rest') (hstuck' : ∀ a m, r rest' ≠ .done a m) :
    as = as' ∧ rest = rest' :=
  h.eq_of_length h' (Nat.le_antisymm (h'.length_le hstuck' h) (h.length_le hstuck h'))

end Streams

end CatDect.Support
