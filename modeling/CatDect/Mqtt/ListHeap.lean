import CatDect.Mqtt.LinkedList
import CatDect.Support.Interleaving

/-!
# Lists on one heap

All linked lists have their elements on one heap.  Whatever is called on them, in any order, no
function follows a pointer that is null or freed, the answers are those that plain lists of
contents would give, and an element is allocated exactly while it is in a list.
-/

namespace CatDect.Mqtt

open CatDect.Support

/-! ## Calls -/

/-- A call, with what `malloc` returns for it. -/
inductive ListCall (α : Type)
  | append (content : α) (size : ℕ) (newel : Option ℕ)
  | insert (content : α) (size : ℕ) (index newel : Option ℕ)
  | findItem (callback : α → Bool)
  | detachItem (callback : α → Bool)
  | removeItem (callback : α → Bool)
  | detachHead
  | removeHead
  | popTail
  | empty
  | forwards
  | backwards

inductive Answer (α : Type)
  | element (p : Option ℕ)
  | flag (removed : Bool)
  | content (x : Option α)
  | contents (l : List α)
  | nothing

structure Lists (α : Type) where
  heap : Cells α
  lists : ℕ → LinkedList
  freed : List α
  answers : List (Answer α)

structure ListViews (α : Type) where
  views : ℕ → ListView α
  freed : List α
  answers : List (Answer α)

section ManyLists

variable {α : Type}

structure CallOutcome (α : Type) where
  freed : List α
  answer : Answer α

def listCall (h : Cells α) (aList : LinkedList) :
    ListCall α → Option (CallOutcome α × Cells α × LinkedList)
  | .append content size newel =>
      (listAppend h aList content size newel).map (Prod.map (fun p => ⟨[], .element p⟩) id)
  | .insert content size index newel =>
      (listInsert h aList content size index newel).map (Prod.map (fun p => ⟨[], .element p⟩) id)
  | .findItem callback =>
      (listFindItem h aList callback).map fun (p, aList) => (⟨[], .element p⟩, h, aList)
  | .detachItem callback =>
      (listUnlink h aList callback).map (Prod.map (fun x => ⟨[], .flag x.isSome⟩) id)
  | .removeItem callback =>
      (listUnlink h aList callback).map (Prod.map (fun x => ⟨x.toList, .flag x.isSome⟩) id)
  | .detachHead => (listDetachHead h aList).map (Prod.map (fun x => ⟨[], .content x⟩) id)
  | .removeHead => (listDetachHead h aList).map (Prod.map (fun x => ⟨x.toList, .flag false⟩) id)
  | .popTail => (listPopTail h aList).map (Prod.map (fun x => ⟨[], .content x⟩) id)
  | .empty => (listEmpty h aList).map (Prod.map (fun l => ⟨l, .nothing⟩) id)
  | .forwards =>
      (walk h (listNextElement h aList) (aList.count.toNat + 1) none).map fun l =>
        (⟨[], .contents l⟩, h, aList)
  | .backwards =>
      (walk h (listPrevElement h aList) (aList.count.toNat + 1) none).map fun l =>
        (⟨[], .contents l⟩, h, aList)

def viewCall (v : ListView α) : ListCall α → CallOutcome α × ListView α
  | .append content _ newel =>
      match newel with
      | none => (⟨[], .element none⟩, v)
      | some a => (⟨[], .element newel⟩, v.append a content)
  | .insert content _ index newel =>
      match newel, index with
      | none, _ => (⟨[], .element none⟩, v)
      | some a, none => (⟨[], .element newel⟩, v.append a content)
      | some a, some i => (⟨[], .element newel⟩, v.insert i a content)
  | .findItem callback => (⟨[], .element ((v.find callback).map Prod.fst)⟩, v.found callback)
  | .detachItem callback =>
      (⟨[], .flag (v.unlink callback).1.isSome⟩, (v.unlink callback).2)
  | .removeItem callback =>
      (⟨(v.unlink callback).1.toList, .flag (v.unlink callback).1.isSome⟩, (v.unlink callback).2)
  | .detachHead => (⟨[], .content v.detachHead.1⟩, v.detachHead.2)
  | .removeHead => (⟨v.detachHead.1.toList, .flag false⟩, v.detachHead.2)
  | .popTail => (⟨[], .content v.popTail.1⟩, v.popTail.2)
  | .empty => (⟨v.items.map Prod.snd, .nothing⟩, ⟨[], none⟩)
  | .forwards => (⟨[], .contents (v.items.map Prod.snd)⟩, v)
  | .backwards => (⟨[], .contents (v.items.reverse.map Prod.snd)⟩, v)

def listStep (s : Lists α) (e : ℕ × ListCall α) : Option (Lists α) := do
  let (outcome, h, aList) ← listCall s.heap (s.lists e.1) e.2
  return {
    heap := h
    lists := Function.update s.lists e.1 aList
    freed := s.freed ++ outcome.freed
    answers := s.answers ++ [outcome.answer] }

def viewStep (w : ListViews α) (e : ℕ × ListCall α) : ListViews α :=
  let (outcome, v) := viewCall (w.views e.1) e.2
  { views := Function.update w.views e.1 v
    freed := w.freed ++ outcome.freed
    answers := w.answers ++ [outcome.answer] }

def ListCall.newel : ListCall α → Option ℕ
  | .append _ _ newel => newel
  | .insert _ _ _ newel => newel
  | _ => none

def ListCall.index : ListCall α → Option ℕ
  | .insert _ _ index _ => index
  | _ => none

/-- `malloc` returns an address that is not in use, and an index is an element of its list. -/
structure ValidCall (w : ListViews α) (e : ℕ × ListCall α) : Prop where
  fresh : ∀ a, e.2.newel = some a → ∀ k, a ∉ addresses (w.views k).items
  index : ∀ i, e.2.index = some i → i ∈ addresses (w.views e.1).items

/-- The answers are the same, each list is represented, no two share an element, and nothing
else is allocated. -/
structure OnHeap (s : Lists α) (w : ListViews α) : Prop where
  represents : ∀ k, Represents s.heap (s.lists k) (w.views k)
  apart : ∀ j k, j ≠ k → ∀ a ∈ addresses (w.views j).items, a ∉ addresses (w.views k).items
  allocated : ∀ a, s.heap a ≠ none → ∃ k, a ∈ addresses (w.views k).items
  freed : s.freed = w.freed
  answers : s.answers = w.answers

theorem Gives.map {ρ τ : Type} {call : Option (ρ × Cells α × LinkedList)} {r : ρ}
    {h : Cells α} {v v' : ListView α} (hgives : Gives call r h v v') (f : ρ → τ) :
    Gives (call.map (Prod.map f id)) (f r) h v v' := by
  obtain ⟨h', aList', rfl, hv', hrewrites⟩ := hgives
  exact ⟨h', aList', rfl, hv', hrewrites⟩

theorem listCall_spec {h : Cells α} {aList : LinkedList} {v : ListView α}
    (hv : Represents h aList v) (call : ListCall α)
    (hnewel : ∀ a, call.newel = some a → a ∉ addresses v.items)
    (hindex : ∀ i, call.index = some i → i ∈ addresses v.items) :
    Gives (listCall h aList call) (viewCall v call).1 h v (viewCall v call).2 := by
  have hrounds : v.items.length < aList.count.toNat + 1 := by
    rw [hv.count, Int.toNat_natCast]
    exact Nat.lt_succ_self _
  cases call with
  | append content size newel =>
      cases newel with
      | none => exact gives_unchanged hv
      | some a => exact (listAppend_spec hv (hnewel a rfl) content size).map _
  | insert content size index newel =>
      cases newel with
      | none => exact gives_unchanged hv
      | some a =>
          cases index with
          | none => exact (listAppend_spec hv (hnewel a rfl) content size).map _
          | some i => exact (listInsert_spec hv (hindex i rfl) (hnewel a rfl) content size).map _
  | findItem callback =>
      obtain ⟨hfind, hv'⟩ := listFindItem_spec hv callback
      refine ⟨h, _, ?_, hv', rewrites_refl h v.items⟩
      rw [listCall, hfind]
      rfl
  | detachItem callback => exact (listUnlink_spec hv callback).map _
  | removeItem callback => exact (listUnlink_spec hv callback).map _
  | detachHead => exact (listDetachHead_spec hv).map _
  | removeHead => exact (listDetachHead_spec hv).map _
  | popTail => exact (listPopTail_spec hv).map _
  | empty => exact (listEmpty_spec hv).map _
  | forwards =>
      have hwalk := walk_forwards hv v.items (List.nil_append v.items).symm hrounds
      refine ⟨h, aList, ?_, hv, rewrites_refl h v.items⟩
      rw [listCall]
      exact congrArg _ hwalk
  | backwards =>
      have hwalk := walk_backwards hv v.items (List.append_nil v.items).symm hrounds
      refine ⟨h, aList, ?_, hv, rewrites_refl h v.items⟩
      rw [listCall]
      exact congrArg _ hwalk

theorem mem_insertBefore {i a : ℕ} {e : ℕ × α} {l : List (ℕ × α)}
    (ha : a ∈ addresses (insertBefore i e l)) : a ∈ addresses l ∨ e.1 = a := by
  induction l with
  | nil => exact nomatch ha
  | cons d l ih =>
      unfold insertBefore at ha
      split at ha
      · rcases List.mem_cons.mp ha with hself | hrest
        · exact .inr hself.symm
        · exact .inl hrest
      · rcases List.mem_cons.mp ha with hself | hrest
        · exact .inl (List.mem_cons.mpr (.inl hself))
        · exact (ih hrest).imp_left fun hmem => List.mem_cons_of_mem _ hmem

theorem mem_remove {v : ListView α} {a b : ℕ} {beside : Option ℕ}
    (hb : b ∈ addresses (v.remove a beside).items) : b ∈ addresses v.items := by
  obtain ⟨e, he, rfl⟩ := List.mem_map.mp hb
  exact List.mem_map_of_mem (List.mem_of_mem_eraseP he)

theorem mem_unlink {v : ListView α} {callback : α → Bool} {a : ℕ}
    (ha : a ∈ addresses (v.unlink callback).2.items) : a ∈ addresses v.items := by
  unfold ListView.unlink at ha
  split at ha
  · exact ha
  · exact mem_remove ha

theorem mem_detachHead {v : ListView α} {a : ℕ} (ha : a ∈ addresses v.detachHead.2.items) :
    a ∈ addresses v.items := by
  unfold ListView.detachHead at ha
  split at ha
  · exact ha
  · exact mem_remove ha

theorem mem_popTail {v : ListView α} {a : ℕ} (ha : a ∈ addresses v.popTail.2.items) :
    a ∈ addresses v.items := by
  unfold ListView.popTail at ha
  split at ha
  · exact ha
  · exact mem_remove ha

theorem mem_viewAppend {v : ListView α} {a b : ℕ} {x : α}
    (hb : b ∈ addresses (v.append a x).items) :
    b ∈ addresses v.items ∨ some a = some b := by
  rcases mem_addresses_insert.mp hb with rfl | hrest
  · exact .inr rfl
  · rw [List.append_nil] at hrest
    exact .inl hrest

theorem mem_viewCall {v : ListView α} {call : ListCall α} {a : ℕ}
    (ha : a ∈ addresses (viewCall v call).2.items) :
    a ∈ addresses v.items ∨ call.newel = some a := by
  cases call with
  | append content size newel =>
      cases newel with
      | none => exact .inl ha
      | some b => exact mem_viewAppend ha
  | insert content size index newel =>
      cases newel with
      | none => exact .inl ha
      | some b =>
          cases index with
          | none => exact mem_viewAppend ha
          | some i => exact (mem_insertBefore ha).imp_right (congrArg some)
  | findItem callback => exact .inl ha
  | detachItem callback => exact .inl (mem_unlink ha)
  | removeItem callback => exact .inl (mem_unlink ha)
  | detachHead => exact .inl (mem_detachHead ha)
  | removeHead => exact .inl (mem_detachHead ha)
  | popTail => exact .inl (mem_popTail ha)
  | empty => exact nomatch ha
  | forwards => exact .inl ha
  | backwards => exact .inl ha

theorem OnHeap.step {s : Lists α} {w : ListViews α} (hs : OnHeap s w) {e : ℕ × ListCall α}
    (hvalid : ValidCall w e) : ∃ s', listStep s e = some s' ∧ OnHeap s' (viewStep w e) := by
  obtain ⟨k, call⟩ := e
  obtain ⟨h', aList', hcall, hv', hrewrites⟩ := listCall_spec (hs.represents k) call
    (fun a ha => hvalid.fresh a ha k) hvalid.index
  have hmem : ∀ a ∈ addresses (viewCall (w.views k) call).2.items,
      a ∈ addresses (w.views k).items ∨ ∀ j, a ∉ addresses (w.views j).items :=
    fun a ha => (mem_viewCall ha).imp_right fun hnew => hvalid.fresh a hnew
  have hview : ∀ j, (viewStep w (k, call)).views j =
      if j = k then (viewCall (w.views k) call).2 else w.views j := fun j =>
    Function.update_apply _ _ _ _
  have hlist : ∀ j, (Function.update s.lists k aList') j = if j = k then aList' else s.lists j :=
    fun j => Function.update_apply _ _ _ _
  have hapart : ∀ j, j ≠ k → ∀ a ∈ addresses (w.views j).items,
      a ∉ addresses (viewCall (w.views k) call).2.items := by
    intro j hj a ha hnew
    rcases hmem a hnew with hold | hfresh
    · exact hs.apart j k hj a ha hold
    · exact hfresh j ha
  refine ⟨_, by rw [listStep, hcall]; rfl, fun j => ?_, fun i j hij a ha => ?_, fun a ha => ?_,
    ?_, ?_⟩
  · rw [hview]
    show Represents h' (Function.update s.lists k aList' j) _
    rw [hlist]
    split
    · exact hv'
    · rename_i hj
      have hrep := hs.represents j
      refine ⟨hrep.linked.congr fun a ha => ?_, hrep.nodup, hrep.first, hrep.last, hrep.current,
        hrep.inside, hrep.count⟩
      exact hrewrites.outside a (hs.apart j k hj a ha) (hapart j hj a ha)
  · rw [hview] at ha ⊢
    split at ha
    · rename_i hi
      rw [if_neg (hi ▸ hij.symm)]
      exact fun hother => hapart j (hi ▸ hij.symm) a hother ha
    · rename_i hi
      split
      · exact hapart i hi a ha
      · exact hs.apart i j hij a ha
  · by_cases hnew : a ∈ addresses (viewCall (w.views k) call).2.items
    · refine ⟨k, ?_⟩
      rw [hview, if_pos rfl]
      exact hnew
    · by_cases hold : a ∈ addresses (w.views k).items
      · exact absurd (hrewrites.freed a hold hnew) ha
      · have hsame : s.heap a ≠ none := by
          rw [← hrewrites.outside a hold hnew]
          exact ha
        obtain ⟨j, hj⟩ := hs.allocated a hsame
        refine ⟨j, ?_⟩
        have hjk : j ≠ k := by
          rintro rfl
          exact hold hj
        rw [hview, if_neg hjk]
        exact hj
  · exact congrArg (· ++ _) hs.freed
  · exact congrArg (· ++ _) hs.answers

def Lists.init : Lists α := ⟨fun _ => none, fun _ => listZero, [], []⟩

def ListViews.init : ListViews α := ⟨fun _ => ⟨[], none⟩, [], []⟩

theorem onHeap_init : OnHeap (.init : Lists α) .init where
  represents := fun _ => represents_zero _
  apart := fun _ _ _ _ ha => nomatch ha
  allocated := fun _ ha => absurd rfl ha
  freed := rfl
  answers := rfl

theorem onHeap_run {s : Lists α} {w : ListViews α} (hs : OnHeap s w)
    (calls : List (ℕ × ListCall α)) (hvalid : Along viewStep w ValidCall calls) :
    ∃ s', calls.foldlM listStep s = some s' ∧ OnHeap s' (run viewStep w calls) := by
  induction calls generalizing s w with
  | nil => exact ⟨s, rfl, hs⟩
  | cons e calls ih =>
      obtain ⟨hfirst, hrest⟩ := along_cons.mp hvalid
      obtain ⟨s₁, hstep, hs₁⟩ := hs.step hfirst
      obtain ⟨s', hrun, hs'⟩ := ih hs₁ hrest
      refine ⟨s', ?_, hs'⟩
      rw [List.foldlM_cons, hstep]
      exact hrun

end ManyLists

/-! ## Plain lists -/

structure PlainLists (α : Type) where
  lists : ℕ → List (ℕ × α)
  freed : List α
  answers : List (Answer α)

section PlainLists

variable {α : Type}

def plainUnlink (l : List (ℕ × α)) (callback : α → Bool) : Option α × List (ℕ × α) :=
  ((l.find? fun e => callback e.2).map Prod.snd, l.eraseP fun e => callback e.2)

def plainCall (l : List (ℕ × α)) : ListCall α → CallOutcome α × List (ℕ × α)
  | .append content _ newel =>
      (⟨[], .element newel⟩, l ++ (newel.map fun a => (a, content)).toList)
  | .insert content _ index newel =>
      match newel, index with
      | some a, some i => (⟨[], .element newel⟩, insertBefore i (a, content) l)
      | _, _ => (⟨[], .element newel⟩, l ++ (newel.map fun a => (a, content)).toList)
  | .findItem callback => (⟨[], .element ((l.find? fun e => callback e.2).map Prod.fst)⟩, l)
  | .detachItem callback =>
      (⟨[], .flag (plainUnlink l callback).1.isSome⟩, (plainUnlink l callback).2)
  | .removeItem callback =>
      (⟨(plainUnlink l callback).1.toList, .flag (plainUnlink l callback).1.isSome⟩,
        (plainUnlink l callback).2)
  | .detachHead => (⟨[], .content (l.head?.map Prod.snd)⟩, l.tail)
  | .removeHead => (⟨(l.head?.map Prod.snd).toList, .flag false⟩, l.tail)
  | .popTail => (⟨[], .content (l.getLast?.map Prod.snd)⟩, l.dropLast)
  | .empty => (⟨l.map Prod.snd, .nothing⟩, [])
  | .forwards => (⟨[], .contents (l.map Prod.snd)⟩, l)
  | .backwards => (⟨[], .contents (l.reverse.map Prod.snd)⟩, l)

def plainStep (p : PlainLists α) (e : ℕ × ListCall α) : PlainLists α :=
  let (outcome, l) := plainCall (p.lists e.1) e.2
  { lists := Function.update p.lists e.1 l
    freed := p.freed ++ outcome.freed
    answers := p.answers ++ [outcome.answer] }

def PlainLists.init : PlainLists α := ⟨fun _ => [], [], []⟩

def ListCall.callback : ListCall α → Option (α → Bool)
  | .findItem callback => some callback
  | .detachItem callback => some callback
  | .removeItem callback => some callback
  | _ => none

/-- As before, and a callback fits one element of the list at most. -/
structure PlainValid (p : PlainLists α) (e : ℕ × ListCall α) : Prop where
  fresh : ∀ a, e.2.newel = some a → ∀ k, a ∉ addresses (p.lists k)
  index : ∀ i, e.2.index = some i → i ∈ addresses (p.lists e.1)
  fitsOne : ∀ callback, e.2.callback = some callback →
    ∀ d₁ ∈ p.lists e.1, ∀ d₂ ∈ p.lists e.1, callback d₁.2 = true → callback d₂.2 = true → d₁ = d₂

structure Agrees (w : ListViews α) (p : PlainLists α) : Prop where
  items : ∀ k, (w.views k).items = p.lists k
  freed : w.freed = p.freed
  answers : w.answers = p.answers

theorem find_of_fitsOne {v : ListView α} {callback : α → Bool}
    (hone : ∀ d₁ ∈ v.items, ∀ d₂ ∈ v.items, callback d₁.2 = true → callback d₂.2 = true → d₁ = d₂) :
    v.find callback = v.items.find? fun e => callback e.2 := by
  cases hfind : v.find callback with
  | none => exact (Option.or_eq_none_iff.mp hfind).2.symm
  | some e =>
      obtain ⟨he, hfits⟩ := mem_of_find hfind
      cases hfirst : v.items.find? fun e => callback e.2 with
      | none => exact absurd hfits (List.find?_eq_none.mp hfirst e he)
      | some d =>
          have hd := List.find?_some hfirst
          rw [hone e he d (List.mem_of_find?_eq_some hfirst) hfits hd]

theorem unlink_of_fitsOne {v : ListView α} (hnodup : (addresses v.items).Nodup)
    {callback : α → Bool}
    (hone : ∀ d₁ ∈ v.items, ∀ d₂ ∈ v.items, callback d₁.2 = true → callback d₂.2 = true → d₁ = d₂) :
    (v.unlink callback).1 = (plainUnlink v.items callback).1 ∧
      (v.unlink callback).2.items = (plainUnlink v.items callback).2 := by
  unfold ListView.unlink plainUnlink
  rw [find_of_fitsOne hone]
  cases hfind : v.items.find? fun e => callback e.2 with
  | none =>
      refine ⟨rfl, (List.eraseP_of_forall_not ?_).symm⟩
      exact List.find?_eq_none.mp hfind
  | some e =>
      obtain ⟨a, x⟩ := e
      obtain ⟨hfits, l₁, l₂, hsplit, hbefore⟩ := List.find?_eq_some_iff_append.mp hfind
      have ha : a ∉ addresses l₁ := by
        rw [hsplit] at hnodup
        have hnot := (nodup_addresses_insert.mp hnodup).1
        rw [addresses_append, List.mem_append, not_or] at hnot
        exact hnot.1
      refine ⟨rfl, ?_⟩
      show v.items.eraseP _ = _
      have hskip : ∀ d ∈ l₁, ¬callback d.2 = true := fun d hd => by simpa using hbefore d hd
      rw [hsplit, remove_split ha, List.eraseP_append_right _ hskip, List.eraseP_cons, hfits]
      rfl

theorem detachHead_plain (v : ListView α) :
    v.detachHead.1 = v.items.head?.map Prod.snd ∧ v.detachHead.2.items = v.items.tail := by
  unfold ListView.detachHead
  cases hitems : v.items with
  | nil => exact ⟨rfl, hitems⟩
  | cons e l =>
      obtain ⟨a, x⟩ := e
      refine ⟨rfl, ?_⟩
      show v.items.eraseP _ = l
      rw [hitems]
      have hrest : ([] ++ (a, x) :: l).eraseP (fun e => decide (e.1 = a)) = [] ++ l :=
        remove_split List.not_mem_nil
      exact hrest

theorem popTail_plain {v : ListView α} (hnodup : (addresses v.items).Nodup) :
    v.popTail.1 = v.items.getLast?.map Prod.snd ∧ v.popTail.2.items = v.items.dropLast := by
  unfold ListView.popTail
  rcases List.eq_nil_or_concat' v.items with hitems | ⟨l, ⟨a, x⟩, hitems⟩
  · rw [hitems]
    exact ⟨rfl, hitems⟩
  · rw [hitems] at hnodup
    have ha := (nodup_addresses_insert.mp hnodup).1
    rw [List.append_nil] at ha
    rw [hitems, List.getLast?_concat, List.dropLast_concat]
    refine ⟨rfl, ?_⟩
    show v.items.eraseP _ = l
    rw [hitems, remove_split ha, List.append_nil]

theorem viewCall_plain {v : ListView α} (hnodup : (addresses v.items).Nodup) {call : ListCall α}
    (hone : ∀ callback, call.callback = some callback → ∀ d₁ ∈ v.items, ∀ d₂ ∈ v.items,
      callback d₁.2 = true → callback d₂.2 = true → d₁ = d₂) :
    (viewCall v call).1 = (plainCall v.items call).1 ∧
      (viewCall v call).2.items = (plainCall v.items call).2 := by
  cases call with
  | append content size newel =>
      cases newel with
      | none => exact ⟨rfl, (List.append_nil v.items).symm⟩
      | some a => exact ⟨rfl, rfl⟩
  | insert content size index newel =>
      cases newel with
      | none => exact ⟨rfl, (List.append_nil v.items).symm⟩
      | some a =>
          cases index with
          | none => exact ⟨rfl, rfl⟩
          | some i => exact ⟨rfl, rfl⟩
  | findItem callback =>
      rw [viewCall, plainCall]
      rw [find_of_fitsOne (hone callback rfl)]
      exact ⟨rfl, rfl⟩
  | detachItem callback =>
      obtain ⟨hcontent, hitems⟩ := unlink_of_fitsOne hnodup (hone callback rfl)
      rw [viewCall, plainCall]
      rw [hcontent]
      exact ⟨rfl, hitems⟩
  | removeItem callback =>
      obtain ⟨hcontent, hitems⟩ := unlink_of_fitsOne hnodup (hone callback rfl)
      rw [viewCall, plainCall]
      rw [hcontent]
      exact ⟨rfl, hitems⟩
  | detachHead =>
      obtain ⟨hcontent, hitems⟩ := detachHead_plain v
      rw [viewCall, plainCall]
      rw [hcontent]
      exact ⟨rfl, hitems⟩
  | removeHead =>
      obtain ⟨hcontent, hitems⟩ := detachHead_plain v
      rw [viewCall, plainCall]
      rw [hcontent]
      exact ⟨rfl, hitems⟩
  | popTail =>
      obtain ⟨hcontent, hitems⟩ := popTail_plain hnodup
      rw [viewCall, plainCall]
      rw [hcontent]
      exact ⟨rfl, hitems⟩
  | empty => exact ⟨rfl, rfl⟩
  | forwards => exact ⟨rfl, rfl⟩
  | backwards => exact ⟨rfl, rfl⟩

theorem Agrees.step {w : ListViews α} {p : PlainLists α} (hagrees : Agrees w p)
    {e : ℕ × ListCall α} (hnodup : (addresses (w.views e.1).items).Nodup)
    (hvalid : PlainValid p e) : ValidCall w e ∧ Agrees (viewStep w e) (plainStep p e) := by
  have hone := hvalid.fitsOne
  rw [← hagrees.items] at hone
  obtain ⟨houtcome, hitems⟩ := viewCall_plain hnodup hone
  rw [hagrees.items] at houtcome hitems
  refine ⟨⟨fun a ha k => ?_, fun i hi => ?_⟩, fun k => ?_, ?_, ?_⟩
  · rw [hagrees.items]
    exact hvalid.fresh a ha k
  · rw [hagrees.items]
    exact hvalid.index i hi
  · show (Function.update w.views e.1 _ k).items = Function.update p.lists e.1 _ k
    rw [Function.update_apply, Function.update_apply]
    split
    · exact hitems
    · exact hagrees.items k
  · show w.freed ++ (viewCall _ _).1.freed = p.freed ++ (plainCall _ _).1.freed
    rw [hagrees.freed, houtcome]
  · show w.answers ++ [(viewCall _ _).1.answer] = p.answers ++ [(plainCall _ _).1.answer]
    rw [hagrees.answers, houtcome]

theorem plain_run {s : Lists α} {w : ListViews α} {p : PlainLists α} (hs : OnHeap s w)
    (hagrees : Agrees w p) (calls : List (ℕ × ListCall α))
    (hvalid : Along plainStep p PlainValid calls) :
    ∃ s', calls.foldlM listStep s = some s' ∧ OnHeap s' (run viewStep w calls) ∧
      Agrees (run viewStep w calls) (run plainStep p calls) := by
  induction calls generalizing s w p with
  | nil => exact ⟨s, rfl, hs, hagrees⟩
  | cons e calls ih =>
      obtain ⟨hfirst, hrest⟩ := along_cons.mp hvalid
      obtain ⟨hcall, hagrees₁⟩ := hagrees.step (hs.represents e.1).nodup hfirst
      obtain ⟨s₁, hstep, hs₁⟩ := hs.step hcall
      obtain ⟨s', hrun, hs'⟩ := ih hs₁ hagrees₁ hrest
      refine ⟨s', ?_, hs'⟩
      rw [List.foldlM_cons, hstep]
      exact hrun

end PlainLists

/-! ## Results over runs -/

section Runs

variable {α : Type}

/-- **The lists are what they stand for.**  Over any calls on any number of lists: no pointer is
followed that is null or freed, the answers and the contents freed are those of the views, and
what is allocated in the end are the elements of the lists. -/
theorem lists_as_views (calls : List (ℕ × ListCall α))
    (hvalid : Along viewStep .init ValidCall calls) :
    ∃ s, calls.foldlM listStep .init = some s ∧
      s.answers = (run viewStep .init calls).answers ∧ s.freed = (run viewStep .init calls).freed ∧
        ∀ a, s.heap a ≠ none ↔ ∃ k, a ∈ addresses ((run viewStep .init calls).views k).items := by
  obtain ⟨s, hrun, hs⟩ := onHeap_run onHeap_init calls hvalid
  refine ⟨s, hrun, hs.answers, hs.freed, fun a => ⟨hs.allocated a, ?_⟩⟩
  rintro ⟨k, ha⟩
  obtain ⟨l₁, x, l₂, hsplit, -, -⟩ := (hs.represents k).split ha
  have hlinked := (hs.represents k).linked
  rw [hsplit] at hlinked
  rw [hlinked.cell]
  exact Option.some_ne_none _

def findSecond : List (ℕ × ListCall ℕ) :=
  [(0, .append 7 4 (some 1)), (0, .append 8 4 (some 2)), (0, .findItem fun x => decide (x = 8)),
    (0, .removeItem fun x => decide (x = 7)), (0, .backwards)]

theorem lists_as_views_findSecond :
    ∃ s, findSecond.foldlM listStep .init = some s ∧
      s.answers = [.element (some 1), .element (some 2), .element (some 2), .flag true,
        .contents [8]] ∧ s.freed = [7] ∧ ∀ a, s.heap a ≠ none ↔ a = 2 := by
  have hvalid : Along viewStep .init ValidCall findSecond := by
    simp only [findSecond, along_cons]
    refine ⟨⟨fun a ha k => List.not_mem_nil, nofun⟩, ⟨fun a ha k => ?_, nofun⟩, ⟨nofun, nofun⟩,
      ⟨nofun, nofun⟩, ⟨nofun, nofun⟩, along_nil⟩
    obtain rfl := Option.some.inj ha
    cases k with
    | zero => decide
    | succ k => exact List.not_mem_nil
  obtain ⟨s, hrun, hanswers, hfreed, hheap⟩ := lists_as_views findSecond hvalid
  refine ⟨s, hrun, hanswers, hfreed, fun a => (hheap a).trans ⟨?_, ?_⟩⟩
  · rintro ⟨k, ha⟩
    cases k with
    | zero => exact List.mem_singleton.mp ha
    | succ k => exact nomatch ha
  · rintro rfl
    exact ⟨0, by decide⟩

/-- **The lists are plain lists**, if no callback fits two elements of a list: what was found
last then makes no difference, neither to the answers nor to what is freed. -/
theorem lists_as_plain (calls : List (ℕ × ListCall α))
    (hvalid : Along plainStep .init PlainValid calls) :
    ∃ s, calls.foldlM listStep .init = some s ∧
      s.answers = (run plainStep .init calls).answers ∧
        s.freed = (run plainStep .init calls).freed := by
  obtain ⟨s, hrun, hs, hagrees⟩ :=
    plain_run onHeap_init ⟨fun _ => rfl, rfl, rfl⟩ calls hvalid
  exact ⟨s, hrun, hs.answers.trans hagrees.answers, hs.freed.trans hagrees.freed⟩

theorem lists_as_plain_findSecond :
    ∃ s, findSecond.foldlM listStep .init = some s ∧
      s.answers = [.element (some 1), .element (some 2), .element (some 2), .flag true,
        .contents [8]] ∧ s.freed = [7] := by
  refine lists_as_plain findSecond ?_
  simp only [findSecond, along_cons]
  refine ⟨⟨fun a ha k => List.not_mem_nil, nofun, nofun⟩, ⟨fun a ha k => ?_, nofun, nofun⟩,
    ⟨nofun, nofun, ?_⟩, ⟨nofun, nofun, ?_⟩, ⟨nofun, nofun, nofun⟩, along_nil⟩
  · obtain rfl := Option.some.inj ha
    cases k with
    | zero => decide
    | succ k => exact List.not_mem_nil
  · rintro callback hcallback
    obtain rfl := Option.some.inj hcallback
    decide
  · rintro callback hcallback
    obtain rfl := Option.some.inj hcallback
    decide

end Runs

end CatDect.Mqtt
