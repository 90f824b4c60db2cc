import Mathlib.Logic.Function.Basic
import Mathlib.Data.List.Nodup

/-!
# Doubly linked cells

Cells that point at their neighbours, at addresses of a store.  `Segment` says that the cells of
a list are linked, between a predecessor and a successor; segments are cut and joined, and an
end of one is linked anew.  Reading, writing and freeing fail at an address without a cell.
-/

namespace CatDect.Support

variable {α : Type*}

/-! ## Cells at addresses -/

structure Cell (α : Type*) where
  prev : Option ℕ
  next : Option ℕ
  content : α

abbrev Cells (α : Type*) := ℕ → Option (Cell α)

def Cells.read (h : Cells α) (p : Option ℕ) : Option (Cell α) := p.bind h

def Cells.write (h : Cells α) (a : ℕ) (c : Cell α) : Cells α := Function.update h a (some c)

def Cells.setPrev (h : Cells α) (p prev : Option ℕ) : Option (Cells α) :=
  p.bind fun a => (h a).map fun c => h.write a { c with prev := prev }

def Cells.setNext (h : Cells α) (p next : Option ℕ) : Option (Cells α) :=
  p.bind fun a => (h a).map fun c => h.write a { c with next := next }

def Cells.pointPrev (h : Cells α) (p prev : Option ℕ) : Option (Cells α) :=
  if p.isNone then some h else h.setPrev p prev

def Cells.pointNext (h : Cells α) (p next : Option ℕ) : Option (Cells α) :=
  if p.isNone then some h else h.setNext p next

def Cells.free (h : Cells α) (p : Option ℕ) : Option (Cells α) :=
  p.bind fun a => (h a).map fun _ => Function.update h a none

section Cells

variable {h : Cells α} {a b : ℕ} {c : Cell α}

theorem Cells.read_some : h.read (some a) = h a := rfl

@[simp] theorem Cells.write_self : (h.write a c) a = some c := by
  unfold Cells.write
  exact Function.update_self a (some c) h

theorem Cells.write_of_ne (hne : b ≠ a) : (h.write a c) b = h b := by
  unfold Cells.write
  exact Function.update_of_ne hne (some c) h

theorem Cells.setPrev_eq (hc : h a = some c) (prev : Option ℕ) :
    h.setPrev (some a) prev = some (h.write a { c with prev := prev }) := by
  rw [Cells.setPrev, Option.bind_some, hc, Option.map_some]

theorem Cells.setNext_eq (hc : h a = some c) (next : Option ℕ) :
    h.setNext (some a) next = some (h.write a { c with next := next }) := by
  rw [Cells.setNext, Option.bind_some, hc, Option.map_some]

theorem Cells.free_eq (hc : h a = some c) : h.free (some a) = some (Function.update h a none) := by
  rw [Cells.free, Option.bind_some, hc, Option.map_some]

end Cells

/-! ## Segments -/

def firstOr (next : Option ℕ) : List (ℕ × α) → Option ℕ
  | [] => next
  | (a, _) :: _ => some a

def lastOr (prev : Option ℕ) : List (ℕ × α) → Option ℕ
  | [] => prev
  | (a, _) :: l => lastOr (some a) l

def addresses (l : List (ℕ × α)) : List ℕ := l.map Prod.fst

/-- The items of `l` are in linked cells, between `prev` and `next`. -/
def Segment (h : Cells α) : Option ℕ → List (ℕ × α) → Option ℕ → Prop
  | _, [], _ => True
  | prev, (a, x) :: l, next => h a = some ⟨prev, firstOr next l, x⟩ ∧ Segment h (some a) l next

section Segment

variable {h h' : Cells α} {prev next prev' next' : Option ℕ} {l l₁ l₂ : List (ℕ × α)}
  {a : ℕ} {x : α}

@[simp] theorem addresses_nil : addresses ([] : List (ℕ × α)) = [] := rfl

@[simp] theorem addresses_cons : addresses ((a, x) :: l) = a :: addresses l := rfl

@[simp] theorem addresses_append : addresses (l₁ ++ l₂) = addresses l₁ ++ addresses l₂ :=
  List.map_append

theorem mem_addresses_insert {b : ℕ} : b ∈ addresses (l₁ ++ (a, x) :: l₂) ↔
    b = a ∨ b ∈ addresses (l₁ ++ l₂) := by
  simp only [addresses_append, addresses_cons, List.mem_append, List.mem_cons]
  exact or_left_comm

theorem nodup_addresses_insert : (addresses (l₁ ++ (a, x) :: l₂)).Nodup ↔
    a ∉ addresses (l₁ ++ l₂) ∧ (addresses (l₁ ++ l₂)).Nodup := by
  simp only [addresses_append, addresses_cons]
  exact List.nodup_middle.trans List.nodup_cons

theorem firstOr_append : firstOr next (l₁ ++ l₂) = firstOr (firstOr next l₂) l₁ := by
  cases l₁ with
  | nil => rfl
  | cons e l₁ => rfl

theorem firstOr_eq_none_iff : firstOr none l = none ↔ l = [] := by
  cases l with
  | nil => exact iff_of_true rfl rfl
  | cons e l => exact iff_of_false (Option.some_ne_none e.1) (List.cons_ne_nil e l)

theorem firstOr_congr (hne : l ≠ []) : firstOr next l = firstOr next' l := by
  cases l with
  | nil => exact absurd rfl hne
  | cons e l => rfl

theorem lastOr_append : lastOr prev (l₁ ++ l₂) = lastOr (lastOr prev l₁) l₂ := by
  induction l₁ generalizing prev with
  | nil => rfl
  | cons e l₁ ih => exact ih

theorem lastOr_concat : lastOr prev (l ++ [(a, x)]) = some a := lastOr_append

theorem lastOr_eq_none_iff : lastOr none l = none ↔ l = [] := by
  rcases List.eq_nil_or_concat' l with rfl | ⟨init, ⟨a, x⟩, rfl⟩
  · exact iff_of_true rfl rfl
  · rw [lastOr_concat]
    exact iff_of_false (Option.some_ne_none a) (List.concat_ne_nil _ _)

theorem lastOr_congr (hne : l ≠ []) : lastOr prev l = lastOr prev' l := by
  rcases List.eq_nil_or_concat' l with rfl | ⟨init, ⟨a, x⟩, rfl⟩
  · exact absurd rfl hne
  · rw [lastOr_concat, lastOr_concat]

theorem segment_cons : Segment h prev ((a, x) :: l) next ↔
    h a = some ⟨prev, firstOr next l, x⟩ ∧ Segment h (some a) l next := Iff.rfl

theorem segment_append : Segment h prev (l₁ ++ l₂) next ↔
    Segment h prev l₁ (firstOr next l₂) ∧ Segment h (lastOr prev l₁) l₂ next := by
  induction l₁ generalizing prev with
  | nil => exact (true_and _).symm.to_iff
  | cons e l₁ ih =>
      obtain ⟨a, x⟩ := e
      rw [List.cons_append, segment_cons, segment_cons, ih, firstOr_append, and_assoc]
      rfl

theorem Segment.congr (hs : Segment h prev l next) (heq : ∀ a ∈ addresses l, h' a = h a) :
    Segment h' prev l next := by
  induction l generalizing prev with
  | nil => trivial
  | cons e l ih =>
      obtain ⟨a, x⟩ := e
      refine ⟨?_, ih hs.2 fun b hb => heq b (List.mem_cons_of_mem a hb)⟩
      rw [heq a List.mem_cons_self]
      exact hs.1

theorem Segment.write (hs : Segment h prev l next) (ha : a ∉ addresses l) (c : Cell α) :
    Segment (h.write a c) prev l next :=
  hs.congr fun _ hb => Cells.write_of_ne (ne_of_mem_of_not_mem hb ha)

theorem Segment.forget (hs : Segment h prev l next) (ha : a ∉ addresses l) :
    Segment (Function.update h a none) prev l next :=
  hs.congr fun _ hb => Function.update_of_ne (ne_of_mem_of_not_mem hb ha) _ _

theorem segment_singleton : Segment h prev [(a, x)] next ↔ h a = some ⟨prev, next, x⟩ :=
  (and_true _).to_iff

theorem Segment.cell (hs : Segment h prev (l₁ ++ (a, x) :: l₂) next) :
    h a = some ⟨lastOr prev l₁, firstOr next l₂, x⟩ :=
  (segment_append.mp hs).2.1

theorem Segment.setPrev (hs : Segment h prev ((a, x) :: l) next)
    (hnodup : (addresses ((a, x) :: l)).Nodup) (prev' : Option ℕ) :
    ∃ h', h.setPrev (some a) prev' = some h' ∧ Segment h' prev' ((a, x) :: l) next ∧
      ∀ b, b ≠ a → h' b = h b := by
  refine ⟨_, Cells.setPrev_eq hs.1 prev', ⟨Cells.write_self, ?_⟩, fun b hb => Cells.write_of_ne hb⟩
  exact hs.2.write (List.nodup_cons.mp hnodup).1 _

theorem Segment.setNext (hs : Segment h prev (l ++ [(a, x)]) next)
    (hnodup : (addresses (l ++ [(a, x)])).Nodup) (next' : Option ℕ) :
    ∃ h', h.setNext (some a) next' = some h' ∧ Segment h' prev (l ++ [(a, x)]) next' ∧
      ∀ b, b ≠ a → h' b = h b := by
  obtain ⟨hinit, hlast⟩ := segment_append.mp hs
  have hnot : a ∉ addresses l := by
    rw [addresses_append] at hnodup
    exact fun ha => (List.disjoint_of_nodup_append hnodup) ha List.mem_cons_self
  refine ⟨_, Cells.setNext_eq hlast.1 next', segment_append.mpr ⟨hinit.write hnot _, ?_⟩,
    fun b hb => Cells.write_of_ne hb⟩
  exact segment_singleton.mpr Cells.write_self

theorem Segment.pointPrev (hs : Segment h prev l next) (hnodup : (addresses l).Nodup)
    (prev' : Option ℕ) :
    ∃ h', h.pointPrev (firstOr none l) prev' = some h' ∧ Segment h' prev' l next ∧
      ∀ b ∉ addresses l, h' b = h b := by
  cases l with
  | nil => exact ⟨h, rfl, trivial, fun _ _ => rfl⟩
  | cons e l =>
      obtain ⟨a, x⟩ := e
      obtain ⟨h', hset, hs', hother⟩ := hs.setPrev hnodup prev'
      exact ⟨h', hset, hs', fun b hb => hother b (ne_of_mem_of_not_mem List.mem_cons_self hb).symm⟩

theorem Segment.pointNext (hs : Segment h prev l next) (hnodup : (addresses l).Nodup)
    (next' : Option ℕ) :
    ∃ h', h.pointNext (lastOr none l) next' = some h' ∧ Segment h' prev l next' ∧
      ∀ b ∉ addresses l, h' b = h b := by
  rcases List.eq_nil_or_concat' l with rfl | ⟨init, ⟨a, x⟩, rfl⟩
  · exact ⟨h, rfl, trivial, fun _ _ => rfl⟩
  · obtain ⟨h', hset, hs', hother⟩ := hs.setNext hnodup next'
    rw [lastOr_concat]
    refine ⟨h', hset, hs', fun b hb => hother b (ne_of_mem_of_not_mem ?_ hb).symm⟩
    rw [addresses_append]
    exact List.mem_append_right _ List.mem_cons_self

/-! ## Elements come and go -/

theorem Segment.append (hs : Segment h none l none) (hnodup : (addresses l).Nodup)
    (ha : a ∉ addresses l) (x : α) :
    ∃ h', (h.write a ⟨lastOr none l, none, x⟩).pointNext (lastOr none l) (some a) = some h' ∧
      Segment h' none (l ++ [(a, x)]) none ∧ ∀ b ∉ addresses (l ++ [(a, x)]), h' b = h b := by
  obtain ⟨h', hpoint, hl, hother⟩ :=
    (hs.write ha ⟨lastOr none l, none, x⟩).pointNext hnodup (some a)
  refine ⟨h', hpoint, segment_append.mpr ⟨hl, segment_singleton.mpr ?_⟩, fun b hb => ?_⟩
  · rw [hother a ha, Cells.write_self]
  · rw [mem_addresses_insert, List.append_nil, not_or] at hb
    rw [hother b hb.2, Cells.write_of_ne hb.1]

theorem Segment.insert {i : ℕ} {y : α} (hs : Segment h none (l₁ ++ (i, y) :: l₂) none)
    (hnodup : (addresses (l₁ ++ (i, y) :: l₂)).Nodup)
    (ha : a ∉ addresses (l₁ ++ (i, y) :: l₂)) (x : α) :
    ∃ h₁ h₂, (h.write a ⟨lastOr none l₁, some i, x⟩).setPrev (some i) (some a) = some h₁ ∧
      h₁.pointNext (lastOr none l₁) (some a) = some h₂ ∧
      Segment h₂ none (l₁ ++ (a, x) :: (i, y) :: l₂) none ∧
      ∀ b ∉ addresses (l₁ ++ (a, x) :: (i, y) :: l₂), h₂ b = h b := by
  obtain ⟨hbefore, hafter⟩ := segment_append.mp (hs.write ha ⟨lastOr none l₁, some i, x⟩)
  rw [addresses_append] at hnodup ha
  obtain ⟨hnodup₁, hnodup₂, hapart⟩ := List.nodup_append.mp hnodup
  rw [List.mem_append, not_or] at ha
  obtain ⟨h₁, hset, hafter₁, hother₁⟩ := hafter.setPrev hnodup₂ (some a)
  have hi : i ∉ addresses l₁ := fun hi => hapart i hi i List.mem_cons_self rfl
  have hbefore₁ : Segment h₁ none l₁ (some i) :=
    hbefore.congr fun b hb => hother₁ b (ne_of_mem_of_not_mem hb hi)
  obtain ⟨h₂, hpoint, hbefore₂, hother₂⟩ := hbefore₁.pointNext hnodup₁ (some a)
  have hafter₂ : Segment h₂ (some a) ((i, y) :: l₂) none :=
    hafter₁.congr fun b hb => hother₂ b fun hb₁ => hapart b hb₁ b hb rfl
  refine ⟨h₁, h₂, hset, hpoint, segment_append.mpr ⟨hbefore₂, ?_, hafter₂⟩, fun b hb => ?_⟩
  · have hai : a ≠ i := fun hai => ha.2 (by rw [hai]; exact List.mem_cons_self)
    rw [hother₂ a ha.1, hother₁ a hai, Cells.write_self]
    rfl
  · simp only [addresses_append, addresses_cons, List.mem_append, List.mem_cons, not_or] at hb
    rw [hother₂ b hb.1, hother₁ b hb.2.2.1, Cells.write_of_ne hb.2.1]

/-- A cell is passed over by its neighbours; the cell itself stays as it was, to be freed. -/
theorem Segment.unlink (hs : Segment h none (l₁ ++ (a, x) :: l₂) none)
    (hnodup : (addresses (l₁ ++ (a, x) :: l₂)).Nodup) :
    ∃ h₁ h₂, h.pointNext (lastOr none l₁) (firstOr none l₂) = some h₁ ∧
      h₁.pointPrev (firstOr none l₂) (lastOr none l₁) = some h₂ ∧ h₁ a = h a ∧ h₂ a = h a ∧
      Segment (Function.update h₂ a none) none (l₁ ++ l₂) none ∧
      ∀ b ∉ addresses (l₁ ++ (a, x) :: l₂), h₂ b = h b := by
  obtain ⟨hbefore, -, hafter⟩ := segment_append.mp hs
  obtain ⟨ha, hrest⟩ := nodup_addresses_insert.mp hnodup
  rw [addresses_append] at hrest
  obtain ⟨hnodup₁, hnodup₂, hapart⟩ := List.nodup_append.mp hrest
  obtain ⟨h₁, hnext, hbefore₁, hother₁⟩ := hbefore.pointNext hnodup₁ (firstOr none l₂)
  have hafter₁ : Segment h₁ (some a) l₂ none :=
    hafter.congr fun b hb => hother₁ b fun hb₁ => hapart b hb₁ b hb rfl
  obtain ⟨h₂, hprev, hafter₂, hother₂⟩ := hafter₁.pointPrev hnodup₂ (lastOr none l₁)
  have hbefore₂ : Segment h₂ none l₁ (firstOr none l₂) :=
    hbefore₁.congr fun b hb => hother₂ b fun hb₂ => hapart b hb b hb₂ rfl
  have hother : ∀ b ∉ addresses (l₁ ++ l₂), h₁ b = h b ∧ h₂ b = h b := by
    intro b hb
    rw [addresses_append, List.mem_append, not_or] at hb
    rw [hother₂ b hb.2, hother₁ b hb.1]
    exact ⟨rfl, rfl⟩
  refine ⟨h₁, h₂, hnext, hprev, (hother a ha).1, (hother a ha).2, ?_, fun b hb => ?_⟩
  · exact (segment_append.mpr ⟨hbefore₂, hafter₂⟩).forget ha
  · rw [mem_addresses_insert, not_or] at hb
    exact (hother b hb.2).2

end Segment

end CatDect.Support
