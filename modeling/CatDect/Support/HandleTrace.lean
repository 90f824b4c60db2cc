import CatDect.Support.Interleaving

/-!
# Traces of handle operations

A library hands out owners and objects that belong to an owner, and destroys both on
request.  The predicates below are about the trace of the calls that a program makes:
`NoLeak` for what has to be given back, `Balanced` for giving back everything once and in
an order the library can follow.
-/

namespace CatDect.Support

variable {κ μ : Type}

inductive HandleCall (κ μ : Type) where
  | openOwner (c : κ)
  | closeOwner (c : κ)
  | create (c : κ) (m : μ)
  | destroy (c : κ) (m : μ)
  | free (m : μ)
deriving DecidableEq

namespace HandleCall

def Destroys (m : μ) : HandleCall κ μ → Prop
  | destroy _ m' => m' = m
  | _ => False

/-- The call frees the memory of the handle `m`, as the destroying call does on its own. -/
def Frees (m : μ) : HandleCall κ μ → Prop
  | destroy _ m' => m' = m
  | free m' => m' = m
  | _ => False

instance [DecidableEq μ] (m : μ) : DecidablePred (Destroys (κ := κ) m)
  | openOwner _ | closeOwner _ | create _ _ | free _ => inferInstanceAs (Decidable False)
  | destroy _ m' => inferInstanceAs (Decidable (m' = m))

instance [DecidableEq μ] (m : μ) : DecidablePred (Frees (κ := κ) m)
  | openOwner _ | closeOwner _ | create _ _ => inferInstanceAs (Decidable False)
  | destroy _ m' | free m' => inferInstanceAs (Decidable (m' = m))

end HandleCall

open HandleCall

/-- Everything that was opened or created has been given back. -/
structure NoLeak (trace : List (HandleCall κ μ)) : Prop where
  closed : ∀ c, openOwner c ∈ trace → closeOwner c ∈ trace
  destroyed : ∀ c m, create c m ∈ trace → ∃ c', destroy c' m ∈ trace

theorem noLeak_nil : NoLeak ([] : List (HandleCall κ μ)) :=
  ⟨fun _ h => absurd h List.not_mem_nil, fun _ _ h => absurd h List.not_mem_nil⟩

/-- An object is destroyed on behalf of the owner it was created in, which is still open. -/
def DestroyedAlive (before : List (HandleCall κ μ)) (call : HandleCall κ μ) : Prop :=
  ∀ c m, call = destroy c m →
    create c m ∈ before ∧ openOwner c ∈ before ∧ closeOwner c ∉ before

section Balanced

variable [DecidableEq κ] [DecidableEq μ] {trace : List (HandleCall κ μ)}

/-- Everything is given back exactly once, and no handle is freed twice. -/
structure Balanced (trace : List (HandleCall κ μ)) : Prop where
  closed_once : ∀ c, openOwner c ∈ trace → trace.count (closeOwner c) = 1
  destroyed_once : ∀ c m, create c m ∈ trace → trace.countP (fun e => Destroys m e) = 1
  destroyed_alive : EachEntry DestroyedAlive trace
  freed_once : ∀ m, trace.countP (fun e => Frees m e) ≤ 1

theorem Balanced.create_of_destroy (h : Balanced trace) {c : κ} {m : μ}
    (hmem : destroy c m ∈ trace) : create c m ∈ trace := by
  obtain ⟨before, after, hsplit⟩ := List.append_of_mem hmem
  obtain ⟨hcreate, -, -⟩ := h.destroyed_alive.of_split hsplit c m rfl
  rw [hsplit]
  exact List.mem_append_left _ hcreate

theorem Balanced.destroy_of_create (h : Balanced trace) {c : κ} {m : μ}
    (hmem : create c m ∈ trace) : ∃ c', destroy c' m ∈ trace ∧ create c' m ∈ trace := by
  have hcount := h.destroyed_once c m hmem
  obtain ⟨call, hcall, hdestroys⟩ := List.countP_pos_iff.mp (hcount ▸ Nat.one_pos)
  cases call with
  | destroy c' m' =>
      obtain rfl : m' = m := of_decide_eq_true hdestroys
      exact ⟨c', hcall, h.create_of_destroy hcall⟩
  | openOwner _ | closeOwner _ | create _ _ | free _ =>
      exact False.elim (of_decide_eq_true hdestroys)

theorem balanced_open_close (c : κ) :
    Balanced [openOwner c, (closeOwner c : HandleCall κ μ)] where
  closed_once := by
    intro c' hc'
    have hsame : c' = c := by simpa using hc'
    subst hsame
    simp
  destroyed_once := by
    intro c' m h
    simp at h
  destroyed_alive := by
    intro before call hp c' m hcall
    have hmem := hp.subset (List.mem_append_right before List.mem_cons_self)
    simp [hcall] at hmem
  freed_once := by
    intro m
    have hnone :
        [openOwner c, (closeOwner c : HandleCall κ μ)].countP (fun e => Frees m e) = 0 := by
      apply List.countP_eq_zero.mpr
      intro e he
      rcases List.mem_pair.mp he with rfl | rfl
      · exact fun h => of_decide_eq_true h
      · exact fun h => of_decide_eq_true h
    omega

end Balanced

end CatDect.Support
