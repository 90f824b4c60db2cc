import Mathlib.Data.List.Basic
import Mathlib.Order.Basic

/-!
# Values handed from stage to stage

A row of stages, each empty or with a value.  The values are `Ordered` if they never fall
from one stage to any later one.  A value copied to the stage before it, a value recorded
once more, and a new value at the end that no other exceeds all keep the order.
-/

namespace CatDect.Support

variable {α : Type*} [Preorder α]

/-- If both stages have a value, the second is not below the first. -/
def NotAfter (a b : Option α) : Prop := ∀ x y, a = some x → b = some y → x ≤ y

def Ordered (stages : List (Option α)) : Prop := stages.Pairwise NotAfter

variable {a b c : Option α} {before rest : List (Option α)}

theorem notAfter_self (a : Option α) : NotAfter a a := by
  intro x y hx hy
  exact (Option.some.inj (hx.symm.trans hy)).le

theorem notAfter_none (a : Option α) : NotAfter a none := fun _ _ _ h => absurd h (by simp)

theorem Ordered.copy (h : Ordered (before ++ a :: b :: rest)) :
    Ordered (before ++ b :: b :: rest) := by
  obtain ⟨hbefore, htail, hcross⟩ := List.pairwise_append.mp h
  obtain ⟨-, hb⟩ := List.pairwise_cons.mp htail
  apply List.pairwise_append.mpr ⟨hbefore, List.pairwise_cons.mpr ⟨?_, hb⟩, ?_⟩
  · intro x hx
    rcases List.mem_cons.mp hx with rfl | hx
    · exact notAfter_self x
    · exact (List.pairwise_cons.mp hb).1 x hx
  · intro x hx y hy
    apply hcross x hx y
    rcases List.mem_cons.mp hy with rfl | hy
    · exact List.mem_cons_of_mem _ List.mem_cons_self
    · exact List.mem_cons_of_mem _ hy

theorem Ordered.record (h : Ordered (before ++ a :: rest)) :
    Ordered (before ++ [a] ++ a :: rest) := by
  obtain ⟨hbefore, htail, hcross⟩ := List.pairwise_append.mp h
  rw [List.append_assoc]
  apply List.pairwise_append.mpr ⟨hbefore, List.pairwise_cons.mpr ⟨?_, htail⟩, ?_⟩
  · intro x hx
    rcases List.mem_cons.mp hx with rfl | hx
    · exact notAfter_self x
    · exact (List.pairwise_cons.mp htail).1 x hx
  · intro x hx y hy
    apply hcross x hx y
    rcases List.mem_cons.mp hy with rfl | hy
    · exact List.mem_cons_self
    · exact hy

theorem Ordered.feed (h : Ordered (before ++ [a])) (hc : ∀ x ∈ before, NotAfter x c) :
    Ordered (before ++ [c]) := by
  obtain ⟨hbefore, -, -⟩ := List.pairwise_append.mp h
  apply List.pairwise_append.mpr ⟨hbefore, List.pairwise_singleton _ _, ?_⟩
  intro x hx y hy
  rw [List.mem_singleton.mp hy]
  exact hc x hx

end CatDect.Support
