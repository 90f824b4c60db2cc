import CatDect.Support.LinkedCells
import Mathlib.Data.Int.Notation
import Mathlib.Data.List.Induction

/-!
# Linked lists

The queue of commands, the messages in flight, the responses and the handles are linked lists
of elements on the heap, each with a pointer to the element that was found last.  A list stands
for its contents in order; each function is given by what it does to them.
-/

namespace CatDect.Mqtt

open CatDect.Support

/-! ## The code -/

/-- `List`.  The pointers are addresses of cells, which are its `ListElement`s; `NULL` is
`none`. -/
structure LinkedList where
  first : Option ℕ
  last : Option ℕ
  current : Option ℕ
  count : ℤ
  size : ℕ

def listZero : LinkedList := ⟨none, none, none, 0, 0⟩

section Code

variable {α : Type}

/-- All functions return `none` where a pointer is followed that is null or freed. -/
def listAppendNoMalloc (h : Cells α) (aList : LinkedList) (content : α) (newel size : ℕ) :
    Option (Cells α × LinkedList) := do
  let h := h.write newel { content := content, next := none, prev := aList.last }
  let (h, aList) ← match aList.first with
    | none => pure (h, { aList with first := some newel })
    | some _ => do
        let h ← h.setNext aList.last (some newel)
        pure (h, aList)
  return (h, { aList with
    last := some newel, count := aList.count + 1, size := aList.size + size })

def relinkFirst (h : Cells α) (aList : LinkedList) (prev next : Option ℕ) :
    Option (Cells α × LinkedList) :=
  match prev with
  | none => some (h, { aList with first := next })
  | some _ => (h.setNext prev next).map fun h => (h, aList)

def relinkLast (h : Cells α) (aList : LinkedList) (next prev : Option ℕ) :
    Option (Cells α × LinkedList) :=
  match next with
  | none => some (h, { aList with last := prev })
  | some _ => (h.setPrev next prev).map fun h => (h, aList)

/-- `newel` is what `malloc` returns. -/
def listAppend (h : Cells α) (aList : LinkedList) (content : α) (size : ℕ)
    (newel : Option ℕ) : Option (Option ℕ × Cells α × LinkedList) :=
  match newel with
  | none => some (none, h, aList)
  | some a => do
      let (h, aList) ← listAppendNoMalloc h aList content a size
      return (newel, h, aList)

def listInsert (h : Cells α) (aList : LinkedList) (content : α) (size : ℕ)
    (index newel : Option ℕ) : Option (Option ℕ × Cells α × LinkedList) :=
  match newel with
  | none => some (none, h, aList)
  | some a =>
      match index with
      | none => do
          let (h, aList) ← listAppendNoMalloc h aList content a size
          return (newel, h, aList)
      | some _ => do
          let i ← h.read index
          let h := h.write a { content := content, next := index, prev := i.prev }
          let h ← h.setPrev index newel
          let (h, aList) ← relinkFirst h aList i.prev newel
          return (newel, h, { aList with count := aList.count + 1, size := aList.size + size })

def listNextElement (h : Cells α) (aList : LinkedList) (pos : Option ℕ) : Option (Option ℕ) :=
  match pos with
  | none => some aList.first
  | some _ => (h.read pos).map Cell.next

def listPrevElement (h : Cells α) (aList : LinkedList) (pos : Option ℕ) : Option (Option ℕ) :=
  match pos with
  | none => some aList.last
  | some _ => (h.read pos).map Cell.prev

/-- The loop of `ListFindItem`; `none` also if it goes on after `rounds` rounds. -/
def findLoop (h : Cells α) (aList : LinkedList) (callback : α → Bool) :
    ℕ → Option ℕ → Option (Option ℕ)
  | 0, _ => none
  | rounds + 1, current => do
      let current ← listNextElement h aList current
      match current with
      | none => return none
      | some _ =>
          let element ← h.read current
          if callback element.content then return current
          else findLoop h aList callback rounds current

def currentFits (h : Cells α) (aList : LinkedList) (callback : α → Bool) : Option Bool :=
  match aList.current with
  | none => some false
  | some _ => (h.read aList.current).map fun element => callback element.content

/-- Without a callback the contents are compared: then `callback` is that comparison. -/
def listFindItem (h : Cells α) (aList : LinkedList) (callback : α → Bool) :
    Option (Option ℕ × LinkedList) := do
  if ← currentFits h aList callback then return (aList.current, aList)
  let rc ← findLoop h aList callback (aList.count.toNat + 1) none
  return (rc, if rc.isSome then { aList with current := rc } else aList)

/-- The content of the item removed, to be freed or not; `none` for 0. -/
def listUnlink (h : Cells α) (aList : LinkedList) (callback : α → Bool) :
    Option (Option α × Cells α × LinkedList) := do
  let saved := aList.current
  let (found, aList) ← listFindItem h aList callback
  if found.isNone then return (none, h, aList)
  let current ← h.read aList.current
  let (h, aList) ← relinkFirst h aList current.prev current.next
  let current ← h.read aList.current
  let (h, aList) ← relinkLast h aList current.next current.prev
  let current ← h.read aList.current
  let h ← h.free aList.current
  let next := if saved = aList.current then current.next else saved
  return (some current.content, h, { aList with current := next, count := aList.count - 1 })

def listDetachHead (h : Cells α) (aList : LinkedList) :
    Option (Option α × Cells α × LinkedList) := do
  if 0 < aList.count then
    let first := aList.first
    let element ← h.read first
    let aList := { aList with
      current := if aList.current = first then element.next else aList.current
      last := if aList.last = first then none else aList.last
      first := element.next }
    let h ← h.pointPrev aList.first none
    let h ← h.free first
    return (some element.content, h, { aList with count := aList.count - 1 })
  else return (none, h, aList)

def listPopTail (h : Cells α) (aList : LinkedList) :
    Option (Option α × Cells α × LinkedList) := do
  if 0 < aList.count then
    let last := aList.last
    let element ← h.read last
    let aList := { aList with
      current := if aList.current = last then element.prev else aList.current
      first := if aList.first = last then none else aList.first
      last := element.prev }
    let h ← h.pointNext aList.last none
    let h ← h.free last
    return (some element.content, h, { aList with count := aList.count - 1 })
  else return (none, h, aList)

def emptyLoop : ℕ → Cells α → Option ℕ → Option (List α × Cells α)
  | 0, _, _ => none
  | rounds + 1, h, first =>
      match first with
      | none => some ([], h)
      | some _ => do
          let element ← h.read first
          let h ← h.free first
          let (contents, h) ← emptyLoop rounds h element.next
          return (element.content :: contents, h)

def listEmpty (h : Cells α) (aList : LinkedList) : Option (List α × Cells α × LinkedList) := do
  let (contents, h) ← emptyLoop (aList.count.toNat + 1) h aList.first
  return (contents, h, listZero)

/-- A caller's loop over `ListNextElement` or `ListPrevElement`, with the contents it sees. -/
def walk (h : Cells α) (advance : Option ℕ → Option (Option ℕ)) :
    ℕ → Option ℕ → Option (List α)
  | 0, _ => none
  | rounds + 1, pos => do
      let pos ← advance pos
      match pos with
      | none => return []
      | some _ =>
          let element ← h.read pos
          let contents ← walk h advance rounds pos
          return element.content :: contents

end Code

/-! ## What a list stands for -/

/-- The contents with the addresses of their elements, and the element found last. -/
structure ListView (α : Type) where
  items : List (ℕ × α)
  current : Option ℕ

def insertBefore {α : Type} (index : ℕ) (e : ℕ × α) : List (ℕ × α) → List (ℕ × α)
  | [] => []
  | d :: l => if d.1 = index then e :: d :: l else d :: insertBefore index e l

def nextOf {α : Type} (a : ℕ) : List (ℕ × α) → Option ℕ
  | [] => none
  | d :: l => if d.1 = a then firstOr none l else nextOf a l

section Views

variable {α : Type}

def ListView.append (v : ListView α) (a : ℕ) (x : α) : ListView α :=
  { v with items := v.items ++ [(a, x)] }

def ListView.insert (v : ListView α) (index a : ℕ) (x : α) : ListView α :=
  { v with items := insertBefore index (a, x) v.items }

def ListView.lastFound (v : ListView α) : Option (ℕ × α) :=
  v.items.find? fun e => decide (v.current = some e.1)

def ListView.find (v : ListView α) (callback : α → Bool) : Option (ℕ × α) :=
  (v.lastFound.filter fun e => callback e.2).or (v.items.find? fun e => callback e.2)

def ListView.found (v : ListView α) (callback : α → Bool) : ListView α :=
  { v with current := ((v.find callback).map Prod.fst).or v.current }

/-- An element that has been found last is replaced by `beside` when it is removed. -/
def ListView.remove (v : ListView α) (a : ℕ) (beside : Option ℕ) : ListView α where
  items := v.items.eraseP fun e => decide (e.1 = a)
  current := if v.current = some a then beside else v.current

def ListView.unlink (v : ListView α) (callback : α → Bool) : Option α × ListView α :=
  match v.find callback with
  | none => (none, v)
  | some (a, x) => (some x, v.remove a (nextOf a v.items))

def ListView.detachHead (v : ListView α) : Option α × ListView α :=
  match v.items.head? with
  | none => (none, v)
  | some (a, x) => (some x, v.remove a (firstOr none v.items.tail))

def ListView.popTail (v : ListView α) : Option α × ListView α :=
  match v.items.getLast? with
  | none => (none, v)
  | some (a, x) => (some x, v.remove a (lastOr none v.items.dropLast))

end Views

/-! ## One list -/

section OneList

variable {α : Type} {h h' : Cells α} {aList aList' : LinkedList} {v v' : ListView α}

/-- The cells of a list are linked, no two of them are one, and its pointers and its count are
those of the view. -/
structure Represents (h : Cells α) (aList : LinkedList) (v : ListView α) : Prop where
  linked : Segment h none v.items none
  nodup : (addresses v.items).Nodup
  first : aList.first = firstOr none v.items
  last : aList.last = lastOr none v.items
  current : aList.current = v.current
  inside : ∀ a, v.current = some a → a ∈ addresses v.items
  count : aList.count = v.items.length

/-- Cells that belong to neither list are as they were, and those that are given up are free. -/
structure Rewrites (h h' : Cells α) (l l' : List (ℕ × α)) : Prop where
  outside : ∀ b, b ∉ addresses l → b ∉ addresses l' → h' b = h b
  freed : ∀ b ∈ addresses l, b ∉ addresses l' → h' b = none

def Gives {ρ : Type} (call : Option (ρ × Cells α × LinkedList)) (r : ρ) (h : Cells α)
    (v v' : ListView α) : Prop :=
  ∃ h' aList', call = some (r, h', aList') ∧ Represents h' aList' v' ∧
    Rewrites h h' v.items v'.items

theorem rewrites_refl (h : Cells α) (l : List (ℕ × α)) : Rewrites h h l l :=
  ⟨fun _ _ _ => rfl, fun _ hb hnot => absurd hb hnot⟩

theorem gives_unchanged {ρ : Type} {r : ρ} (hv : Represents h aList v) :
    Gives (some (r, h, aList)) r h v v :=
  ⟨h, aList, rfl, hv, rewrites_refl h v.items⟩

theorem represents_zero (h : Cells α) : Represents h listZero ⟨[], none⟩ where
  linked := trivial
  nodup := List.nodup_nil
  first := rfl
  last := rfl
  current := rfl
  inside := nofun
  count := rfl

theorem relinkFirst_eq (h : Cells α) (aList : LinkedList) (prev next : Option ℕ) :
    relinkFirst h aList prev next = (h.pointNext prev next).map fun h =>
      (h, { aList with first := if prev = none then next else aList.first }) := by
  cases prev with
  | none => rfl
  | some a => rfl

theorem relinkLast_eq (h : Cells α) (aList : LinkedList) (next prev : Option ℕ) :
    relinkLast h aList next prev = (h.pointPrev next prev).map fun h =>
      (h, { aList with last := if next = none then prev else aList.last }) := by
  cases next with
  | none => rfl
  | some a => rfl

theorem listAppendNoMalloc_spec (hv : Represents h aList v) {a : ℕ} (ha : a ∉ addresses v.items)
    (x : α) (size : ℕ) :
    ∃ h' aList', listAppendNoMalloc h aList x a size = some (h', aList') ∧
      Represents h' aList' (v.append a x) ∧ Rewrites h h' v.items (v.append a x).items := by
  obtain ⟨h', hpoint, hlinked, hother⟩ := hv.linked.append hv.nodup ha x
  have hfirst : (if aList.first = none then some a else aList.first) =
      firstOr none (v.items ++ [(a, x)]) := by
    rw [hv.first, firstOr_append]
    split
    · rename_i hempty
      rw [firstOr_eq_none_iff.mp hempty]
      rfl
    · rename_i hne
      exact firstOr_congr fun hempty => hne (firstOr_eq_none_iff.mpr hempty)
  have hcode : listAppendNoMalloc h aList x a size = some (h',
      { aList with
        first := if aList.first = none then some a else aList.first
        last := some a
        count := aList.count + 1
        size := aList.size + size }) := by
    rw [← hv.last] at hpoint
    unfold listAppendNoMalloc
    cases hf : aList.first with
    | none =>
        have hempty : v.items = [] := firstOr_eq_none_iff.mp (hv.first.symm.trans hf)
        have hlast : aList.last = none := hv.last.trans (lastOr_eq_none_iff.mpr hempty)
        rw [hlast] at hpoint ⊢
        rw [← Option.some.inj hpoint]
        rfl
    | some f =>
        have hne : v.items ≠ [] := fun hempty => by
          rw [hv.first, hempty] at hf
          exact absurd hf.symm (Option.some_ne_none f)
        have hlast : aList.last.isNone = false := by
          rw [hv.last, Option.isNone_eq_false_iff, Option.isSome_iff_ne_none]
          exact fun hnone => hne (lastOr_eq_none_iff.mp hnone)
        rw [Cells.pointNext, hlast, if_neg Bool.false_ne_true] at hpoint
        dsimp only
        rw [hpoint, if_neg (Option.some_ne_none f), ← hf]
        rfl
  refine ⟨_, _, hcode, ⟨hlinked, ?_, hfirst, lastOr_concat.symm, hv.current, fun b hb => ?_, ?_⟩,
    fun b _ hb => hother b hb, fun b hb hnot => ?_⟩
  · exact nodup_addresses_insert.mpr (by rw [List.append_nil]; exact ⟨ha, hv.nodup⟩)
  · exact mem_addresses_insert.mpr (.inr (by rw [List.append_nil]; exact hv.inside b hb))
  · show aList.count + 1 = ((v.items ++ [(a, x)]).length : ℤ)
    rw [hv.count, List.length_append]
    rfl
  · exact absurd (mem_addresses_insert.mpr (.inr (by rw [List.append_nil]; exact hb))) hnot

theorem Represents.insideKept (hv : Represents h aList v) {l : List (ℕ × α)}
    (hkept : ∀ b ∈ addresses v.items, b ∈ addresses l) :
    ∀ b, v.current = some b → b ∈ addresses l := fun b hb => hkept b (hv.inside b hb)

theorem insertBefore_split {i : ℕ} {e : ℕ × α} {y : α} {l₁ l₂ : List (ℕ × α)}
    (hi : i ∉ addresses l₁) :
    insertBefore i e (l₁ ++ (i, y) :: l₂) = l₁ ++ e :: (i, y) :: l₂ := by
  induction l₁ with
  | nil => exact if_pos rfl
  | cons d l₁ ih =>
      have hne : d.1 ≠ i := (List.ne_of_not_mem_cons hi).symm
      rw [List.cons_append, insertBefore, if_neg hne, ih (List.not_mem_of_not_mem_cons hi)]
      rfl

theorem nextOf_split {a : ℕ} {x : α} {l₁ l₂ : List (ℕ × α)} (ha : a ∉ addresses l₁) :
    nextOf a (l₁ ++ (a, x) :: l₂) = firstOr none l₂ := by
  induction l₁ with
  | nil => exact if_pos rfl
  | cons d l₁ ih =>
      have hne : d.1 ≠ a := (List.ne_of_not_mem_cons ha).symm
      rw [List.cons_append, nextOf, if_neg hne, ih (List.not_mem_of_not_mem_cons ha)]

theorem remove_split {a : ℕ} {x : α} {l₁ l₂ : List (ℕ × α)} (ha : a ∉ addresses l₁) :
    (l₁ ++ (a, x) :: l₂).eraseP (fun e => decide (e.1 = a)) = l₁ ++ l₂ := by
  have hself : ((a, x) :: l₂).eraseP (fun e => decide (e.1 = a)) = l₂ := by
    simp
  rw [List.eraseP_append_right, hself]
  intro e he hea
  exact ha (by rw [← of_decide_eq_true hea]; exact List.mem_map_of_mem he)

theorem Represents.split (hv : Represents h aList v) {a : ℕ} (ha : a ∈ addresses v.items) :
    ∃ l₁ x l₂, v.items = l₁ ++ (a, x) :: l₂ ∧ a ∉ addresses l₁ ∧ a ∉ addresses l₂ := by
  obtain ⟨e, he, rfl⟩ := List.mem_map.mp ha
  obtain ⟨l₁, l₂, hsplit⟩ := List.append_of_mem he
  have hnodup := hv.nodup
  rw [hsplit] at hnodup
  have hnot := (nodup_addresses_insert.mp hnodup).1
  rw [addresses_append, List.mem_append, not_or] at hnot
  exact ⟨l₁, e.2, l₂, hsplit, hnot.1, hnot.2⟩

theorem listAppend_spec (hv : Represents h aList v) {a : ℕ} (ha : a ∉ addresses v.items)
    (x : α) (size : ℕ) :
    Gives (listAppend h aList x size (some a)) (some a) h v (v.append a x) := by
  obtain ⟨h', aList', hcode, hv', hrewrites⟩ := listAppendNoMalloc_spec hv ha x size
  refine ⟨h', aList', ?_, hv', hrewrites⟩
  show (listAppendNoMalloc h aList x a size).bind _ = _
  rw [hcode]
  rfl

theorem listInsert_spec (hv : Represents h aList v) {i a : ℕ} (hi : i ∈ addresses v.items)
    (ha : a ∉ addresses v.items) (x : α) (size : ℕ) :
    Gives (listInsert h aList x size (some i) (some a)) (some a) h v (v.insert i a x) := by
  obtain ⟨l₁, y, l₂, hsplit, hnot, -⟩ := hv.split hi
  have hnodup := hv.nodup
  have hlinked := hv.linked
  rw [hsplit] at ha hnodup hlinked
  have hitems : (v.insert i a x).items = l₁ ++ (a, x) :: (i, y) :: l₂ := by
    show insertBefore i (a, x) v.items = _
    rw [hsplit, insertBefore_split hnot]
  obtain ⟨h₁, h₂, hset, hpoint, hlinked₂, hother⟩ := hlinked.insert hnodup ha x
  have hkept : ∀ b ∈ addresses v.items, b ∈ addresses (v.insert i a x).items := by
    intro b hb
    rw [hitems, mem_addresses_insert, ← hsplit]
    exact .inr hb
  have hfirst : (if lastOr none l₁ = none then some a else aList.first) =
      firstOr none (l₁ ++ (a, x) :: (i, y) :: l₂) := by
    rw [hv.first, hsplit, firstOr_append, firstOr_append]
    split
    · rename_i hempty
      rw [lastOr_eq_none_iff.mp hempty]
      rfl
    · rename_i hne
      exact firstOr_congr fun hempty => hne (lastOr_eq_none_iff.mpr hempty)
  have hcode : listInsert h aList x size (some i) (some a) = some (some a, h₂,
      { aList with
        first := if lastOr none l₁ = none then some a else aList.first
        count := aList.count + 1
        size := aList.size + size }) := by
    show (h.read (some i)).bind _ = _
    rw [Cells.read_some, hlinked.cell]
    show ((h.write a ⟨lastOr none l₁, some i, x⟩).setPrev (some i) (some a)).bind _ = _
    rw [hset]
    show (relinkFirst h₁ aList (lastOr none l₁) (some a)).bind _ = _
    rw [relinkFirst_eq, hpoint]
    rfl
  refine ⟨h₂, _, hcode, ⟨?_, ?_, ?_, ?_, hv.current, hv.insideKept hkept, ?_⟩, ?_, ?_⟩
  · rw [hitems]
    exact hlinked₂
  · rw [hitems]
    exact nodup_addresses_insert.mpr ⟨ha, hnodup⟩
  · rw [hitems, ← hfirst]
  · rw [hitems, lastOr_append]
    exact hv.last.trans (by rw [hsplit, lastOr_append]; rfl)
  · rw [hitems]
    show aList.count + 1 = _
    rw [hv.count, hsplit]
    simp only [List.length_append, List.length_cons]
    push_cast
    omega
  · intro b _ hb
    rw [hitems] at hb
    exact hother b hb
  · exact fun b hb hnot => absurd (hkept b hb) hnot

theorem listNextElement_spec (hv : Represents h aList v) {l₁ l₂ : List (ℕ × α)}
    (hsplit : v.items = l₁ ++ l₂) :
    listNextElement h aList (lastOr none l₁) = some (firstOr none l₂) := by
  have hfirst := hv.first
  have hlinked := hv.linked
  rw [hsplit] at hfirst hlinked
  rcases List.eq_nil_or_concat' l₁ with rfl | ⟨init, ⟨a, x⟩, rfl⟩
  · exact congrArg some hfirst
  · rw [List.append_assoc] at hlinked
    rw [lastOr_concat]
    show (h a).map Cell.next = _
    rw [hlinked.cell]
    rfl

theorem listPrevElement_spec (hv : Represents h aList v) {l₁ l₂ : List (ℕ × α)}
    (hsplit : v.items = l₁ ++ l₂) :
    listPrevElement h aList (firstOr none l₂) = some (lastOr none l₁) := by
  have hlast := hv.last
  have hlinked := hv.linked
  rw [hsplit] at hlast hlinked
  cases l₂ with
  | nil =>
      rw [List.append_nil] at hlast
      exact congrArg some hlast
  | cons e l₂ =>
      show (h e.1).map Cell.prev = _
      rw [hlinked.cell]
      rfl

theorem exists_succ_of_lt {n rounds : ℕ} (h : n < rounds) : ∃ m, rounds = m + 1 :=
  ⟨rounds - 1, by omega⟩

theorem findLoop_spec (hv : Represents h aList v) (callback : α → Bool) (l₂ : List (ℕ × α))
    {l₁ : List (ℕ × α)} (hsplit : v.items = l₁ ++ l₂) {rounds : ℕ} (hrounds : l₂.length < rounds) :
    findLoop h aList callback rounds (lastOr none l₁) =
      some ((l₂.find? fun e => callback e.2).map Prod.fst) := by
  induction l₂ generalizing l₁ rounds with
  | nil =>
      obtain ⟨rounds, rfl⟩ := exists_succ_of_lt hrounds
      rw [findLoop, listNextElement_spec hv hsplit]
      rfl
  | cons e l₂ ih =>
      obtain ⟨a, x⟩ := e
      obtain ⟨rounds, rfl⟩ := exists_succ_of_lt hrounds
      have hlinked := hv.linked
      rw [hsplit] at hlinked
      rw [findLoop, listNextElement_spec hv hsplit]
      show (h.read (some a)).bind _ = _
      rw [Cells.read_some, hlinked.cell]
      show (if callback x = true then some (some a) else
        findLoop h aList callback rounds (some a)) = _
      rw [List.find?_cons]
      cases hx : callback x with
      | true => rfl
      | false =>
          have hsplit' : v.items = (l₁ ++ [(a, x)]) ++ l₂ := by
            rw [hsplit, List.append_assoc]
            rfl
          have hrest := ih hsplit' (Nat.lt_of_succ_lt_succ hrounds)
          rw [lastOr_concat] at hrest
          exact hrest

theorem lastFound_of_none (hcurrent : v.current = none) : v.lastFound = none := by
  unfold ListView.lastFound
  rw [hcurrent]
  exact List.find?_eq_none.mpr fun e _ => by simp

theorem lastFound_of_split {a : ℕ} {x : α} {l₁ l₂ : List (ℕ × α)}
    (hsplit : v.items = l₁ ++ (a, x) :: l₂) (ha : a ∉ addresses l₁)
    (hcurrent : v.current = some a) : v.lastFound = some (a, x) := by
  unfold ListView.lastFound
  rw [hsplit, hcurrent, List.find?_append, List.find?_eq_none.mpr, Option.none_or, List.find?_cons]
  · simp
  · intro e he hea
    rw [Option.some.inj (of_decide_eq_true hea)] at ha
    exact ha (List.mem_map_of_mem he)

theorem Represents.setCurrent (hv : Represents h aList v) {current : Option ℕ}
    (hinside : ∀ a, current = some a → a ∈ addresses v.items) :
    Represents h { aList with current := current } { v with current := current } :=
  ⟨hv.linked, hv.nodup, hv.first, hv.last, rfl, hinside, hv.count⟩

theorem mem_of_find {callback : α → Bool} {e : ℕ × α} (hfind : v.find callback = some e) :
    e ∈ v.items ∧ callback e.2 = true := by
  rcases Option.or_eq_some_iff.mp hfind with hlast | ⟨-, hfirst⟩
  · obtain ⟨hmem, hfits⟩ := Option.filter_eq_some_iff.mp hlast
    exact ⟨List.mem_of_find?_eq_some hmem, hfits⟩
  · have hfits := List.find?_some hfirst
    exact ⟨List.mem_of_find?_eq_some hfirst, hfits⟩

theorem currentFits_spec (hv : Represents h aList v) (callback : α → Bool) :
    currentFits h aList callback = some (v.lastFound.any fun e => callback e.2) := by
  unfold currentFits
  rw [hv.current]
  cases hcurrent : v.current with
  | none =>
      rw [lastFound_of_none hcurrent]
      rfl
  | some a =>
      obtain ⟨l₁, x, l₂, hsplit, ha, -⟩ := hv.split (hv.inside a hcurrent)
      have hlinked := hv.linked
      rw [hsplit] at hlinked
      rw [lastFound_of_split hsplit ha hcurrent]
      show (h a).map _ = _
      rw [hlinked.cell]
      rfl

theorem find_of_fits {callback : α → Bool}
    (hfits : v.lastFound.any (fun e => callback e.2) = true) :
    (v.find callback).map Prod.fst = v.current := by
  cases hlast : v.lastFound with
  | none =>
      rw [hlast] at hfits
      exact absurd hfits Bool.false_ne_true
  | some e =>
      rw [hlast, Option.any_some] at hfits
      have hcurrent := List.find?_some hlast
      rw [ListView.find, hlast, Option.filter_some, if_pos hfits]
      exact (of_decide_eq_true hcurrent).symm

theorem find_of_not_fits {callback : α → Bool}
    (hfits : v.lastFound.any (fun e => callback e.2) = false) :
    v.find callback = v.items.find? fun e => callback e.2 := by
  unfold ListView.find
  cases hlast : v.lastFound with
  | none => rfl
  | some e =>
      rw [hlast, Option.any_some] at hfits
      rw [Option.filter_some, if_neg (Bool.eq_false_iff.mp hfits)]
      rfl

theorem listFindItem_spec (hv : Represents h aList v) (callback : α → Bool) :
    listFindItem h aList callback = some ((v.find callback).map Prod.fst,
        { aList with current := (v.found callback).current }) ∧
      Represents h { aList with current := (v.found callback).current } (v.found callback) := by
  refine ⟨?_, hv.setCurrent fun a ha => ?_⟩
  · have hloop : findLoop h aList callback v.items.length.succ none =
        some ((v.items.find? fun e => callback e.2).map Prod.fst) :=
      findLoop_spec hv callback v.items (List.nil_append v.items).symm
        (Nat.lt_succ_self v.items.length)
    have hcount : aList.count.toNat + 1 = v.items.length.succ := by
      rw [hv.count, Int.toNat_natCast]
    unfold listFindItem ListView.found
    rw [currentFits_spec hv, hcount]
    cases hfits : v.lastFound.any fun e => callback e.2 with
    | true =>
        rw [find_of_fits hfits, Option.or_self, ← hv.current]
        rfl
    | false =>
        show (findLoop h aList callback v.items.length.succ none).bind _ = _
        rw [hloop, find_of_not_fits hfits, ← hv.current]
        cases v.items.find? fun e => callback e.2 with
        | none => rfl
        | some e => rfl
  · rcases Option.or_eq_some_iff.mp ha with hfound | ⟨-, hsame⟩
    · obtain ⟨e, hfind, rfl⟩ := Option.map_eq_some_iff.mp hfound
      exact List.mem_map_of_mem (mem_of_find hfind).1
    · exact hv.inside a hsame

section Removal

variable {a : ℕ} {x : α} {l₁ l₂ : List (ℕ × α)} {beside : Option ℕ}

theorem firstOr_removed : (if lastOr none l₁ = none then firstOr none l₂ else
    firstOr none (l₁ ++ (a, x) :: l₂)) = firstOr none (l₁ ++ l₂) := by
  rw [firstOr_append, firstOr_append]
  split
  · rename_i hempty
    rw [lastOr_eq_none_iff.mp hempty]
    rfl
  · rename_i hne
    exact firstOr_congr fun hempty => hne (lastOr_eq_none_iff.mpr hempty)

theorem lastOr_removed : (if firstOr none l₂ = none then lastOr none l₁ else
    lastOr none (l₁ ++ (a, x) :: l₂)) = lastOr none (l₁ ++ l₂) := by
  rw [lastOr_append, lastOr_append]
  split
  · rename_i hempty
    rw [firstOr_eq_none_iff.mp hempty]
    rfl
  · rename_i hne
    exact lastOr_congr fun hempty => hne (firstOr_eq_none_iff.mpr hempty)

theorem Represents.removed (hv : Represents h aList v) (hsplit : v.items = l₁ ++ (a, x) :: l₂)
    (ha : a ∉ addresses l₁) (hlinked : Segment h' none (l₁ ++ l₂) none)
    (hbeside : ∀ b, beside = some b → b ∈ addresses (l₁ ++ l₂)) (size : ℕ) :
    Represents h'
      { first := firstOr none (l₁ ++ l₂)
        last := lastOr none (l₁ ++ l₂)
        current := if v.current = some a then beside else v.current
        count := aList.count - 1
        size := size } (v.remove a beside) := by
  have hitems : (v.remove a beside).items = l₁ ++ l₂ := by
    show v.items.eraseP _ = _
    rw [hsplit, remove_split ha]
  have hnodup := hv.nodup
  rw [hsplit] at hnodup
  refine ⟨?_, ?_, ?_, ?_, rfl, fun b hb => ?_, ?_⟩
  · rw [hitems]
    exact hlinked
  · rw [hitems]
    exact (nodup_addresses_insert.mp hnodup).2
  · rw [hitems]
  · rw [hitems]
  · rw [hitems]
    unfold ListView.remove at hb
    dsimp only at hb
    split at hb
    · exact hbeside b hb
    · rename_i hother
      have hmem := hv.inside b hb
      rw [hsplit, mem_addresses_insert] at hmem
      refine hmem.resolve_left fun hba => hother ?_
      rw [hb, hba]
  · rw [hitems]
    show aList.count - 1 = _
    rw [hv.count, hsplit]
    simp only [List.length_append, List.length_cons]
    push_cast
    omega

theorem rewrites_removed (hsplit : v.items = l₁ ++ (a, x) :: l₂) (ha : a ∉ addresses l₁)
    (hother : ∀ b ∉ addresses (l₁ ++ (a, x) :: l₂), h' b = h b) :
    Rewrites h (Function.update h' a none) v.items (v.remove a beside).items := by
  have hitems : (v.remove a beside).items = l₁ ++ l₂ := by
    show v.items.eraseP _ = _
    rw [hsplit, remove_split ha]
  rw [hitems, hsplit]
  constructor
  · intro b hb _
    have hba : b ≠ a := fun hba => hb (mem_addresses_insert.mpr (.inl hba))
    rw [Function.update_of_ne hba]
    exact hother b hb
  · intro b hb hnot
    rw [(mem_addresses_insert.mp hb).resolve_right hnot]
    exact Function.update_self a none h'

theorem mem_of_firstOr {b : ℕ} (h : firstOr none l₂ = some b) : b ∈ addresses (l₁ ++ l₂) := by
  cases l₂ with
  | nil => exact nomatch h
  | cons e l₂ =>
      rw [addresses_append, ← Option.some.inj h]
      exact List.mem_append_right _ List.mem_cons_self

theorem mem_of_lastOr {b : ℕ} (h : lastOr none l₁ = some b) : b ∈ addresses (l₁ ++ l₂) := by
  rcases List.eq_nil_or_concat' l₁ with rfl | ⟨init, e, rfl⟩
  · exact nomatch h
  · rw [lastOr_concat] at h
    rw [addresses_append, addresses_append, ← Option.some.inj h]
    exact List.mem_append_left _ (List.mem_append_right _ List.mem_cons_self)

end Removal

theorem listUnlink_spec (hv : Represents h aList v) (callback : α → Bool) :
    Gives (listUnlink h aList callback) (v.unlink callback).1 h v (v.unlink callback).2 := by
  obtain ⟨hfind, -⟩ := listFindItem_spec hv callback
  unfold ListView.unlink
  unfold ListView.found at hfind
  cases hresult : v.find callback with
  | none =>
      rw [hresult, Option.map_none, Option.none_or, ← hv.current] at hfind
      refine ⟨h, aList, ?_, hv, rewrites_refl h v.items⟩
      show (listFindItem h aList callback).bind _ = _
      rw [hfind]
      rfl
  | some e =>
      obtain ⟨a, x⟩ := e
      rw [hresult, Option.map_some, Option.some_or] at hfind
      obtain ⟨l₁, l₂, hsplit⟩ := List.append_of_mem (mem_of_find hresult).1
      have hnodup := hv.nodup
      have hlinked := hv.linked
      rw [hsplit] at hnodup hlinked
      have ha : a ∉ addresses l₁ := fun ha => (nodup_addresses_insert.mp hnodup).1 (by
        rw [addresses_append]
        exact List.mem_append_left _ ha)
      obtain ⟨h₁, h₂, hnext, hprev, hcell₁, hcell₂, hlinked', hother⟩ := hlinked.unlink hnodup
      have hcell := hlinked.cell
      have hbeside : ∀ b, nextOf a v.items = some b → b ∈ addresses (l₁ ++ l₂) := by
        intro b hb
        rw [hsplit, nextOf_split ha] at hb
        exact mem_of_firstOr hb
      have hfirst : (if lastOr none l₁ = none then firstOr none l₂ else aList.first) =
          firstOr none (l₁ ++ l₂) := by
        rw [hv.first, hsplit, firstOr_removed]
      have hlast : (if firstOr none l₂ = none then lastOr none l₁ else aList.last) =
          lastOr none (l₁ ++ l₂) := by
        rw [hv.last, hsplit, lastOr_removed]
      refine ⟨_, _, ?_, hv.removed hsplit ha hlinked' hbeside aList.size,
        rewrites_removed hsplit ha hother⟩
      show (listFindItem h aList callback).bind _ = _
      rw [hfind]
      show (h a).bind _ = _
      rw [hcell]
      show (relinkFirst h _ (lastOr none l₁) (firstOr none l₂)).bind _ = _
      rw [relinkFirst_eq, hnext]
      show (h₁ a).bind _ = _
      rw [hcell₁, hcell]
      show (relinkLast h₁ _ (firstOr none l₂) (lastOr none l₁)).bind _ = _
      rw [relinkLast_eq, hprev]
      show (h₂ a).bind _ = _
      rw [hcell₂, hcell]
      show (h₂.free (some a)).bind _ = _
      rw [Cells.free_eq (hcell₂.trans hcell), ← hfirst, ← hlast, ← hv.current, hsplit,
        nextOf_split ha]
      rfl

theorem lastOr_mem {l : List (ℕ × α)} {a : ℕ} (h : lastOr none l = some a) : a ∈ addresses l := by
  have hmem : a ∈ addresses (l ++ []) := mem_of_lastOr h
  rw [List.append_nil] at hmem
  exact hmem

theorem firstOr_mem {l : List (ℕ × α)} {a : ℕ} (h : firstOr none l = some a) :
    a ∈ addresses l := by
  have hmem : a ∈ addresses ([] ++ l) := mem_of_firstOr h
  exact hmem

theorem listDetachHead_spec (hv : Represents h aList v) :
    Gives (listDetachHead h aList) v.detachHead.1 h v v.detachHead.2 := by
  have hcount := hv.count
  unfold ListView.detachHead
  cases hitems : v.items with
  | nil =>
      rw [hitems] at hcount
      refine ⟨h, aList, if_neg ?_, hv, rewrites_refl h v.items⟩
      rw [hcount]
      exact Int.lt_irrefl 0
  | cons e l =>
      obtain ⟨a, x⟩ := e
      have hsplit : v.items = [] ++ (a, x) :: l := hitems
      have hnodup := hv.nodup
      have hlinked := hv.linked
      rw [hsplit] at hnodup hlinked
      obtain ⟨h₁, h₂, hnext, hprev, -, hcell₂, hlinked', hother⟩ := hlinked.unlink hnodup
      obtain rfl := Option.some.inj hnext
      refine ⟨_, _, ?_, hv.removed hsplit List.not_mem_nil hlinked' (fun b hb => mem_of_firstOr hb)
        aList.size, rewrites_removed hsplit List.not_mem_nil hother⟩
      have hfirst : aList.first = some a := hv.first.trans (by rw [hitems]; rfl)
      have hlast : (if aList.last = some a then none else aList.last) = lastOr none l := by
        rw [hv.last, hitems]
        show (if lastOr (some a) l = some a then none else lastOr (some a) l) = _
        by_cases hempty : l = []
        · rw [hempty]
          exact if_pos rfl
        · have hother : lastOr (some a) l = lastOr none l := lastOr_congr hempty
          rw [hother]
          refine if_neg fun hlast => (nodup_addresses_insert.mp hnodup).1 ?_
          exact lastOr_mem hlast
      have hpos : 0 < aList.count := by
        rw [hcount, hitems, List.length_cons]
        omega
      unfold listDetachHead
      rw [if_pos hpos]
      show (h.read aList.first).bind _ = _
      rw [hfirst, Cells.read_some, hlinked.cell]
      show (h.pointPrev (firstOr none l) none).bind _ = _
      rw [show h.pointPrev (firstOr none l) none = some h₂ from hprev]
      show (h₂.free (some a)).bind _ = _
      rw [Cells.free_eq (hcell₂.trans hlinked.cell), ← hv.current]
      show some (some x, Function.update h₂ a none, LinkedList.mk _ _ _ _ _) = _
      rw [hlast]
      rfl

theorem listPopTail_spec (hv : Represents h aList v) :
    Gives (listPopTail h aList) v.popTail.1 h v v.popTail.2 := by
  have hcount := hv.count
  unfold ListView.popTail
  rcases List.eq_nil_or_concat' v.items with hitems | ⟨l, ⟨a, x⟩, hitems⟩
  · rw [hitems] at hcount ⊢
    refine ⟨h, aList, if_neg ?_, hv, rewrites_refl h v.items⟩
    rw [hcount]
    exact Int.lt_irrefl 0
  · have hsplit : v.items = l ++ (a, x) :: [] := hitems
    have hnodup := hv.nodup
    have hlinked := hv.linked
    rw [hsplit] at hnodup hlinked
    obtain ⟨h₁, h₂, hnext, hprev, -, hcell₂, hlinked', hother⟩ := hlinked.unlink hnodup
    obtain rfl := Option.some.inj hprev
    have ha : a ∉ addresses l := by
      have hnot := (nodup_addresses_insert.mp hnodup).1
      rw [List.append_nil] at hnot
      exact hnot
    rw [hitems, List.getLast?_concat, List.dropLast_concat]
    refine ⟨_, _, ?_, hv.removed hsplit ha hlinked' (fun b hb => mem_of_lastOr hb)
      aList.size, rewrites_removed hsplit ha hother⟩
    have hlast : aList.last = some a := hv.last.trans (by rw [hitems, lastOr_concat])
    have hfirst : (if aList.first = some a then none else aList.first) = firstOr none l := by
      rw [hv.first, hitems, firstOr_append]
      by_cases hempty : l = []
      · rw [hempty]
        exact if_pos rfl
      · have hother : firstOr (firstOr none [(a, x)]) l = firstOr none l := firstOr_congr hempty
        rw [hother]
        exact if_neg fun hfirst => ha (firstOr_mem hfirst)
    have hpos : 0 < aList.count := by
      rw [hcount, hitems, List.length_append, List.length_singleton]
      omega
    unfold listPopTail
    rw [if_pos hpos]
    show (h.read aList.last).bind _ = _
    rw [hlast, Cells.read_some, hlinked.cell]
    show (h.pointNext (lastOr none l) none).bind _ = _
    rw [show h.pointNext (lastOr none l) none = some h₁ from hnext]
    show (h₁.free (some a)).bind _ = _
    rw [Cells.free_eq (hcell₂.trans hlinked.cell), ← hv.current]
    show some (some x, Function.update h₁ a none, LinkedList.mk _ _ _ _ _) = _
    rw [hfirst, List.append_nil]

theorem emptyLoop_spec {l : List (ℕ × α)} {rounds : ℕ} (hrounds : l.length < rounds)
    {prev : Option ℕ} (hlinked : Segment h prev l none) (hnodup : (addresses l).Nodup) :
    ∃ h', emptyLoop rounds h (firstOr none l) = some (l.map Prod.snd, h') ∧ Rewrites h h' l [] := by
  induction l generalizing h prev rounds with
  | nil =>
      obtain ⟨rounds, rfl⟩ := exists_succ_of_lt hrounds
      exact ⟨h, rfl, rewrites_refl h []⟩
  | cons e l ih =>
      obtain ⟨a, x⟩ := e
      obtain ⟨rounds, rfl⟩ := exists_succ_of_lt hrounds
      obtain ⟨ha, hrest⟩ := List.nodup_cons.mp hnodup
      obtain ⟨h', hloop, hrewrites⟩ :=
        ih (Nat.lt_of_succ_lt_succ hrounds) (hlinked.2.forget ha) hrest
      refine ⟨h', ?_, fun b hb _ => ?_, fun b hb _ => ?_⟩
      · show (h a).bind _ = _
        rw [hlinked.1]
        show (h.free (some a)).bind _ = _
        rw [Cells.free_eq hlinked.1]
        show (emptyLoop rounds (Function.update h a none) (firstOr none l)).bind _ = _
        rw [hloop]
        rfl
      · rw [addresses_cons, List.mem_cons, not_or] at hb
        rw [hrewrites.outside b hb.2 List.not_mem_nil, Function.update_of_ne hb.1]
      · rw [addresses_cons, List.mem_cons] at hb
        by_cases hbl : b ∈ addresses l
        · exact hrewrites.freed b hbl List.not_mem_nil
        · rw [hrewrites.outside b hbl List.not_mem_nil, hb.resolve_right hbl]
          exact Function.update_self a none h

theorem listEmpty_spec (hv : Represents h aList v) :
    Gives (listEmpty h aList) (v.items.map Prod.snd) h v ⟨[], none⟩ := by
  have hcount : v.items.length < aList.count.toNat + 1 := by
    rw [hv.count, Int.toNat_natCast]
    exact Nat.lt_succ_self _
  obtain ⟨h', hloop, hrewrites⟩ := emptyLoop_spec hcount hv.linked hv.nodup
  refine ⟨h', listZero, ?_, represents_zero h', hrewrites⟩
  show (emptyLoop (aList.count.toNat + 1) h aList.first).bind _ = _
  rw [hv.first, hloop]
  rfl

theorem walk_forwards (hv : Represents h aList v) (l₂ : List (ℕ × α)) {l₁ : List (ℕ × α)}
    (hsplit : v.items = l₁ ++ l₂) {rounds : ℕ} (hrounds : l₂.length < rounds) :
    walk h (listNextElement h aList) rounds (lastOr none l₁) = some (l₂.map Prod.snd) := by
  induction l₂ generalizing l₁ rounds with
  | nil =>
      obtain ⟨rounds, rfl⟩ := exists_succ_of_lt hrounds
      rw [walk, listNextElement_spec hv hsplit]
      rfl
  | cons e l₂ ih =>
      obtain ⟨a, x⟩ := e
      obtain ⟨rounds, rfl⟩ := exists_succ_of_lt hrounds
      have hlinked := hv.linked
      rw [hsplit] at hlinked
      have hsplit' : v.items = (l₁ ++ [(a, x)]) ++ l₂ := by
        rw [hsplit, List.append_assoc]
        rfl
      have hrest := ih hsplit' (Nat.lt_of_succ_lt_succ hrounds)
      rw [lastOr_concat] at hrest
      rw [walk, listNextElement_spec hv hsplit]
      show (h a).bind _ = _
      rw [hlinked.cell]
      show (walk h (listNextElement h aList) rounds (some a)).bind _ = _
      rw [hrest]
      rfl

theorem walk_backwards (hv : Represents h aList v) (l₁ : List (ℕ × α)) {l₂ : List (ℕ × α)}
    (hsplit : v.items = l₁ ++ l₂) {rounds : ℕ} (hrounds : l₁.length < rounds) :
    walk h (listPrevElement h aList) rounds (firstOr none l₂) =
      some (l₁.reverse.map Prod.snd) := by
  induction l₁ using List.reverseRecOn generalizing l₂ rounds with
  | nil =>
      obtain ⟨rounds, rfl⟩ := exists_succ_of_lt hrounds
      rw [walk, listPrevElement_spec hv hsplit]
      rfl
  | append_singleton l₁ e ih =>
      obtain ⟨a, x⟩ := e
      rw [List.length_append, List.length_singleton] at hrounds
      obtain ⟨rounds, rfl⟩ := exists_succ_of_lt hrounds
      have hsplit' : v.items = l₁ ++ (a, x) :: l₂ := by
        rw [hsplit, List.append_assoc]
        rfl
      have hlinked := hv.linked
      rw [hsplit'] at hlinked
      have hrest : walk h (listPrevElement h aList) rounds (some a) =
          some (l₁.reverse.map Prod.snd) := ih hsplit' (Nat.lt_of_succ_lt_succ hrounds)
      rw [walk, listPrevElement_spec hv hsplit, lastOr_concat, List.reverse_concat]
      show (h a).bind _ = _
      rw [hlinked.cell]
      show (walk h (listPrevElement h aList) rounds (some a)).bind _ = _
      rw [hrest]
      rfl

end OneList

end CatDect.Mqtt
