import Mathlib.Data.List.Perm.Basic

/-!
# Queues of several owners

One list holds the items of several owners.  Items go in at the end; the item that comes out
is the first of its owner, wherever it stands.  Seen by one owner this is first in, first out:
`Fifo` says what has come of the items accepted.
-/

namespace CatDect.Support

variable {α κ : Type*}

/-! ## The first of its owner -/

/-- `rest` is `l` without the item `a`, and nothing before `a` has the same owner. -/
inductive TakesFirst (owner : α → κ) (a : α) : List α → List α → Prop
  | head (l : List α) : TakesFirst owner a (a :: l) l
  | cons {l rest : List α} {b : α} (hne : owner b ≠ owner a) (h : TakesFirst owner a l rest) :
      TakesFirst owner a (b :: l) (b :: rest)

section TakesFirst

variable {owner : α → κ} {a : α} {l rest : List α}

theorem TakesFirst.perm (h : TakesFirst owner a l rest) : l.Perm (a :: rest) := by
  induction h with
  | head l => exact List.Perm.refl (a :: l)
  | @cons l rest b _ _ ih => exact (ih.cons b).trans (List.Perm.swap a b rest)

theorem TakesFirst.filter {p : α → Bool} (h : TakesFirst owner a l rest)
    (hp : ∀ b, p b = true → p a = true → owner b = owner a) :
    l.filter p = [a].filter p ++ rest.filter p := by
  induction h with
  | head l => exact List.filter_append [a] l
  | @cons l rest b hne _ ih =>
      by_cases hb : p b = true
      · have ha : ¬p a = true := fun ha => hne (hp b hb ha)
        rw [List.filter_cons_of_pos hb, List.filter_cons_of_pos hb, ih,
          List.filter_cons_of_neg ha]
        rfl
      · rw [List.filter_cons_of_neg hb, List.filter_cons_of_neg hb, ih]

end TakesFirst

/-! ## Removing the first that fits -/

section EraseFirst

variable {p q : α → Bool}

theorem filter_eraseP (p : α → Bool) (l : List α) :
    (l.eraseP p).filter p = (l.filter p).tail := by
  induction l with
  | nil => rfl
  | cons a l ih =>
      by_cases ha : p a = true
      · rw [List.eraseP_cons_of_pos ha, List.filter_cons_of_pos ha, List.tail_cons]
      · rw [List.eraseP_cons_of_neg ha, List.filter_cons_of_neg ha, List.filter_cons_of_neg ha, ih]

theorem filter_eraseP_of_disjoint (h : ∀ a, q a = true → ¬p a = true) (l : List α) :
    (l.eraseP q).filter p = l.filter p := by
  induction l with
  | nil => rfl
  | cons a l ih =>
      by_cases ha : q a = true
      · rw [List.eraseP_cons_of_pos ha, List.filter_cons_of_neg (h a ha)]
      · rw [List.eraseP_cons_of_neg ha, List.filter_cons, List.filter_cons, ih]

end EraseFirst

/-! ## First in, first out -/

/-- What has come of the items accepted: those started and those that wait are in the order
in which they were accepted, and with those dropped they are all. -/
structure Fifo (accepted started dropped waiting : List α) : Prop where
  inOrder : (started ++ waiting).Sublist accepted
  accounted : accepted.Perm (started ++ waiting ++ dropped)

section Fifo

variable {accepted started dropped waiting before after : List α}

theorem fifo_nil : Fifo ([] : List α) [] [] [] where
  inOrder := List.Sublist.refl []
  accounted := List.Perm.refl []

theorem Fifo.accept (h : Fifo accepted started dropped waiting) (l : List α) :
    Fifo (accepted ++ l) started dropped (waiting ++ l) where
  inOrder := by
    rw [← List.append_assoc]
    exact h.inOrder.append (List.Sublist.refl l)
  accounted := by
    calc (accepted ++ l).Perm (started ++ waiting ++ dropped ++ l) := h.accounted.append_right l
      _ = started ++ waiting ++ (dropped ++ l) := List.append_assoc _ _ _
      List.Perm _ (started ++ waiting ++ (l ++ dropped)) := List.perm_append_comm.append_left _
      _ = started ++ (waiting ++ l) ++ dropped := by simp only [List.append_assoc]

theorem Fifo.start {l : List α} (h : Fifo accepted started dropped (l ++ waiting)) :
    Fifo accepted (started ++ l) dropped waiting where
  inOrder := by
    rw [List.append_assoc]
    exact h.inOrder
  accounted := by
    rw [List.append_assoc started]
    exact h.accounted

theorem Fifo.drop {l : List α} (h : Fifo accepted started dropped (before ++ l ++ after)) :
    Fifo accepted started (dropped ++ l) (before ++ after) where
  inOrder := by
    have hless : (before ++ after).Sublist (before ++ l ++ after) :=
      (List.sublist_append_left before l).append (List.Sublist.refl after)
    exact ((List.Sublist.refl started).append hless).trans h.inOrder
  accounted := by
    refine h.accounted.trans ?_
    simp only [List.append_assoc]
    refine (List.Perm.refl started).append ((List.Perm.refl before).append ?_)
    calc (l ++ (after ++ dropped)).Perm (after ++ dropped ++ l) := List.perm_append_comm
      _ = after ++ (dropped ++ l) := List.append_assoc _ _ _

theorem Fifo.eq_of_kept (h : Fifo accepted started [] waiting) : accepted = started ++ waiting := by
  have hlen := h.accounted.length_eq
  rw [List.append_nil] at hlen
  exact (h.inOrder.eq_of_length hlen.symm).symm

end Fifo

end CatDect.Support
