import CatDect.Support.AcquireRelease

/-!
# The RGA handles

`letterbox` keeps the handles of its two buffers in globals, which the next call
overwrites.  It releases them only if the resize succeeds, without clearing the globals,
from which `image_hanle_free` releases them again.
-/

namespace CatDect.ImageHandle

open CatDect.Support Use

/-! ## The code -/

/-- One call of `letterbox`: what `importbuffer_fd` returns for the two buffers, which is 0
for a failure, and whether `imresize` returns `IM_STATUS_SUCCESS`. -/
structure RgaOutcome where
  src : ℕ
  dst : ℕ
  resized : Bool
deriving DecidableEq

/-- The globals `src_handle` and `dst_handle`, and what has been imported and released. -/
structure RgaState where
  srcHandle : ℕ
  dstHandle : ℕ
  trace : List (Use ℕ)
deriving DecidableEq

namespace RgaState

def initial : RgaState := ⟨0, 0, []⟩

def importbufferFd (s : RgaState) (handle : ℕ) : RgaState :=
  if handle = 0 then s else { s with trace := s.trace ++ [acquire handle] }

def importHandles (s : RgaState) (src dst : ℕ) : RgaState :=
  let s : RgaState := { s.importbufferFd src with srcHandle := src }
  { s.importbufferFd dst with dstHandle := dst }

def releasebufferHandle (s : RgaState) (handle : ℕ) : RgaState :=
  { s with trace := s.trace ++ [release handle] }

/-- `if (src_handle) releasebuffer_handle(src_handle)`, and the same for `dst_handle`. -/
def releaseHandles (s : RgaState) : RgaState :=
  let s : RgaState := if s.srcHandle ≠ 0 then s.releasebufferHandle s.srcHandle else s
  if s.dstHandle ≠ 0 then s.releasebufferHandle s.dstHandle else s

end RgaState

def letterboxRga (s : RgaState) (outcome : RgaOutcome) : RgaState :=
  let s := s.importHandles outcome.src outcome.dst
  if s.srcHandle = 0 ∨ s.dstHandle = 0 then s
  else if outcome.resized then s.releaseHandles
  else s

def imageHanleFree (s : RgaState) : RgaState := s.releaseHandles

/-! ## One call -/

namespace RgaOutcome

variable (o : RgaOutcome)

def handles : List ℕ := [o.src, o.dst].filter (· ≠ 0)

def NoHandle : Prop := o.src = 0 ∧ o.dst = 0

def Resized : Prop := o.src ≠ 0 ∧ o.dst ≠ 0 ∧ o.resized = true

instance : DecidablePred NoHandle :=
  fun o => inferInstanceAs (Decidable (o.src = 0 ∧ o.dst = 0))

instance : DecidablePred Resized :=
  fun o => inferInstanceAs (Decidable (o.src ≠ 0 ∧ o.dst ≠ 0 ∧ o.resized = true))

def trace : List (Use ℕ) :=
  o.handles.map acquire ++ if o.Resized then o.handles.map release else []

variable {o}

theorem handles_eq_nil_iff : o.handles = [] ↔ o.NoHandle := by
  unfold handles NoHandle
  rw [List.filter_eq_nil_iff]
  simp

theorem handles_of_resized (h : o.Resized) : o.handles = [o.src, o.dst] := by
  apply List.filter_eq_self.mpr
  intro m hm
  rcases List.mem_pair.mp hm with rfl | rfl
  · exact decide_eq_true h.1
  · exact decide_eq_true h.2.1

theorem not_noHandle_of_resized (h : o.Resized) : ¬ o.NoHandle :=
  fun hnone => h.1 hnone.1

end RgaOutcome

theorem filter_pair (src dst : ℕ) :
    [src, dst].filter (· ≠ 0) = [src].filter (· ≠ 0) ++ [dst].filter (· ≠ 0) :=
  List.filter_append [src] [dst]

theorem importbufferFd_eq (s : RgaState) (handle : ℕ) :
    s.importbufferFd handle =
      { s with trace := s.trace ++ ([handle].filter (· ≠ 0)).map acquire } := by
  unfold RgaState.importbufferFd
  by_cases hzero : handle = 0
  · simp [hzero]
  · simp [hzero]

theorem releaseUnlessZero_eq (s : RgaState) (handle : ℕ) :
    (if handle ≠ 0 then s.releasebufferHandle handle else s) =
      { s with trace := s.trace ++ ([handle].filter (· ≠ 0)).map release } := by
  unfold RgaState.releasebufferHandle
  by_cases hzero : handle = 0
  · simp [hzero]
  · simp [hzero]

theorem importHandles_eq (s : RgaState) (src dst : ℕ) :
    s.importHandles src dst =
      ⟨src, dst, s.trace ++ ([src, dst].filter (· ≠ 0)).map acquire⟩ := by
  unfold RgaState.importHandles
  simp only [importbufferFd_eq]
  rw [filter_pair, List.map_append, List.append_assoc]

theorem releaseHandles_eq (src dst : ℕ) (trace : List (Use ℕ)) :
    RgaState.releaseHandles ⟨src, dst, trace⟩ =
      ⟨src, dst, trace ++ ([src, dst].filter (· ≠ 0)).map release⟩ := by
  unfold RgaState.releaseHandles
  simp only [releaseUnlessZero_eq]
  rw [filter_pair, List.map_append, List.append_assoc]

theorem letterboxRga_eq (s : RgaState) (o : RgaOutcome) :
    letterboxRga s o = ⟨o.src, o.dst, s.trace ++ o.trace⟩ := by
  have hmissing : (o.src = 0 ∨ o.dst = 0) ∨ o.resized ≠ true ↔ ¬ o.Resized := by
    unfold RgaOutcome.Resized
    tauto
  unfold letterboxRga RgaOutcome.trace
  rw [importHandles_eq]
  dsimp only
  by_cases hzero : o.src = 0 ∨ o.dst = 0
  · rw [if_pos hzero, if_neg (hmissing.mp (.inl hzero)), List.append_nil]
    rfl
  · rw [if_neg hzero]
    by_cases hresized : o.resized = true
    · have hall : o.Resized :=
        ⟨fun h => hzero (.inl h), fun h => hzero (.inr h), hresized⟩
      rw [if_pos hresized, if_pos hall, releaseHandles_eq, List.append_assoc]
      rfl
    · rw [if_neg hresized, if_neg (hmissing.mp (.inr hresized)), List.append_nil]
      rfl

/-! ## A run -/

def letterboxCalls (outcomes : List RgaOutcome) : RgaState :=
  run letterboxRga .initial outcomes

theorem letterboxCalls_append_singleton (outcomes : List RgaOutcome) (o : RgaOutcome) :
    letterboxCalls (outcomes ++ [o]) =
      ⟨o.src, o.dst, (letterboxCalls outcomes).trace ++ o.trace⟩ := by
  unfold letterboxCalls
  rw [run_append_singleton, letterboxRga_eq]

theorem letterboxCalls_trace (outcomes : List RgaOutcome) :
    (letterboxCalls outcomes).trace = outcomes.flatMap RgaOutcome.trace := by
  induction outcomes using List.reverseRecOn with
  | nil => rfl
  | append_singleton outcomes o ih =>
      rw [letterboxCalls_append_singleton, ih, List.flatMap_append, List.flatMap_singleton]

/-- From the start of a call to the start of the next one, or to the end, no handles but
those of the call are outstanding. -/
def OwnHandlesOnly (outcomes : List RgaOutcome) : Prop :=
  ∀ done o, (done ++ [o]).IsPrefix outcomes →
    ∀ trace, (letterboxCalls done).trace.IsPrefix trace →
      trace.IsPrefix (letterboxCalls (done ++ [o])).trace → ∀ m, held trace m ≤ o.handles.count m

def NoneBetween (outcomes : List RgaOutcome) : Prop :=
  ∀ done, done.IsPrefix outcomes → ∀ m, held (letterboxCalls done).trace m = 0

/-- Every handle is released exactly once, and none is outstanding but in the call that has
obtained it. -/
structure HandlesBalanced (outcomes : List RgaOutcome) : Prop where
  released_once : Paired (imageHanleFree (letterboxCalls outcomes)).trace
  own : OwnHandlesOnly outcomes
  between : NoneBetween outcomes

namespace RgaOutcome

variable {o : RgaOutcome}

def Clean (o : RgaOutcome) : Prop := o.NoHandle ∨ o.Resized

theorem trace_resized (h : o.Resized) :
    o.trace = o.handles.map acquire ++ o.handles.map release := by
  unfold trace
  rw [if_pos h]

theorem trace_not_resized (h : ¬ o.Resized) : o.trace = o.handles.map acquire := by
  unfold trace
  rw [if_neg h, List.append_nil]

theorem Clean.paired (h : o.Clean) : Paired o.trace := by
  by_cases hresized : o.Resized
  · rw [trace_resized hresized]
    exact paired_acquire_release o.handles
  · have hnone : o.handles = [] := handles_eq_nil_iff.mpr (h.resolve_right hresized)
    rw [trace_not_resized hresized, hnone]
    exact paired_nil

theorem exists_held (h : ¬ o.Clean) : ∃ m, 0 < held o.trace m := by
  have hresized : ¬ o.Resized := fun hresized => h (.inr hresized)
  have hne : o.handles ≠ [] := fun hnil => h (.inl (handles_eq_nil_iff.mp hnil))
  obtain ⟨m, hm⟩ := List.exists_mem_of_ne_nil _ hne
  refine ⟨m, ?_⟩
  rw [trace_not_resized hresized, held_map_acquire]
  exact Int.natCast_pos.mpr (List.count_pos_iff.mpr hm)

theorem paired_close : Paired (o.trace ++ o.handles.map release) ↔ ¬ o.Resized := by
  constructor
  · intro h hresized
    rw [trace_resized hresized,
      paired_append_iff (paired_acquire_release o.handles).settled] at h
    have hagain := h.2
    rw [handles_of_resized hresized] at hagain
    exact not_paired_release o.src _ hagain
  · intro h
    rw [trace_not_resized h]
    exact paired_acquire_release o.handles

theorem held_le_handles (o : RgaOutcome) {trace : List (Use ℕ)} (h : trace.IsPrefix o.trace)
    (m : ℕ) : held trace m ≤ o.handles.count m := by
  have hcount : o.trace.count (acquire m) = o.handles.count m := by
    unfold RgaOutcome.trace
    rw [List.count_append, count_acquire_map]
    split
    · rw [count_acquire_map_release, Nat.add_zero]
    · rfl
  have hle : trace.count (acquire m) ≤ o.trace.count (acquire m) := h.sublist.count_le _
  have hheld := held_le_count trace m
  omega

end RgaOutcome

/-! ## When the handles are balanced -/

section Balance

variable {outcomes done : List RgaOutcome} {o : RgaOutcome}

theorem paired_of_clean (h : ∀ o ∈ outcomes, o.Clean) :
    Paired (letterboxCalls outcomes).trace := by
  rw [letterboxCalls_trace]
  exact Paired.flatMap fun o ho => (h o ho).paired

theorem OwnHandlesOnly.held_le (h : OwnHandlesOnly outcomes)
    (hp : (done ++ [o]).IsPrefix outcomes) (m : ℕ) : held (letterboxCalls done).trace m ≤ 0 := by
  have hsplit : (letterboxCalls (done ++ [o])).trace =
      (letterboxCalls done).trace ++ o.handles.map acquire ++
        if o.Resized then o.handles.map release else [] := by
    rw [letterboxCalls_append_singleton, List.append_assoc]
    rfl
  have hle := h done o hp _ (List.prefix_append _ (o.handles.map acquire))
    (hsplit ▸ List.prefix_append _ _) m
  rw [held_append, held_map_acquire] at hle
  omega

theorem ownHandlesOnly_of_clean {last : RgaOutcome} (h : ∀ o ∈ outcomes, o.Clean) :
    OwnHandlesOnly (outcomes ++ [last]) := by
  intro done o hp trace hstart hend m
  have hdone : ∀ o ∈ done, o.Clean := by
    have hinit : done.IsPrefix outcomes := by
      rcases isPrefix_append_singleton.mp hp with hbefore | heq
      · exact (List.prefix_append _ _).trans hbefore
      · rw [(List.append_inj' heq rfl).1]
    exact fun o ho => h o (hinit.subset ho)
  obtain ⟨part, rfl⟩ := hstart
  rw [letterboxCalls_append_singleton, List.prefix_append_right_inj] at hend
  rw [held_append, (paired_of_clean hdone).settled m, Int.zero_add]
  exact o.held_le_handles hend m

theorem imageHanleFree_trace (outcomes : List RgaOutcome) (last : RgaOutcome) :
    (imageHanleFree (letterboxCalls (outcomes ++ [last]))).trace =
      (letterboxCalls outcomes).trace ++ (last.trace ++ last.handles.map release) := by
  unfold imageHanleFree
  rw [letterboxCalls_append_singleton, releaseHandles_eq, List.append_assoc]
  rfl

theorem clean_of_own {last : RgaOutcome}
    (hpaired : Paired (imageHanleFree (letterboxCalls (outcomes ++ [last]))).trace)
    (hown : OwnHandlesOnly (outcomes ++ [last])) : ∀ o ∈ outcomes, o.Clean := by
  intro o ho
  by_contra hclean
  obtain ⟨m, hm⟩ := RgaOutcome.exists_held hclean
  obtain ⟨done, rest, rfl⟩ := List.append_of_mem ho
  obtain ⟨next, after, hnext⟩ : ∃ next after, rest ++ [last] = next :: after := by
    cases rest with
    | nil => exact ⟨last, [], rfl⟩
    | cons next rest => exact ⟨next, rest ++ [last], rfl⟩
  have hbegins : (done ++ [o] ++ [next]).IsPrefix (done ++ o :: rest ++ [last]) :=
    ⟨after, by simp [hnext]⟩
  have hle := hown.held_le hbegins m
  have hbefore : (letterboxCalls done).trace.IsPrefix
      (imageHanleFree (letterboxCalls (done ++ o :: rest ++ [last]))).trace := by
    rw [imageHanleFree_trace, letterboxCalls_trace (done ++ o :: rest), List.flatMap_append,
      ← letterboxCalls_trace, List.append_assoc]
    exact List.prefix_append _ _
  have hnonneg := held_nonneg (hpaired.releases.of_prefix hbefore) m
  rw [letterboxCalls_append_singleton, held_append] at hle
  omega

/-- The handles are released once each, and are those of one call at a time, exactly if all
calls but the last are clean and the last leaves it to `image_hanle_free` to release. -/
theorem letterboxCalls_released_iff (outcomes : List RgaOutcome) (last : RgaOutcome) :
    Paired (imageHanleFree (letterboxCalls (outcomes ++ [last]))).trace ∧
        OwnHandlesOnly (outcomes ++ [last]) ↔
      (∀ o ∈ outcomes, o.Clean) ∧ ¬ last.Resized := by
  have hclose (hclean : ∀ o ∈ outcomes, o.Clean) :
      Paired (imageHanleFree (letterboxCalls (outcomes ++ [last]))).trace ↔
        ¬ last.Resized := by
    have hbefore := paired_of_clean hclean
    rw [imageHanleFree_trace, paired_append_iff hbefore.settled, RgaOutcome.paired_close]
    exact and_iff_right hbefore
  constructor
  · intro ⟨hpaired, hown⟩
    have hclean := clean_of_own hpaired hown
    exact ⟨hclean, (hclose hclean).mp hpaired⟩
  · intro ⟨hclean, hlast⟩
    exact ⟨(hclose hclean).mpr hlast, ownHandlesOnly_of_clean hclean⟩

theorem noneBetween_of_clean (h : ∀ o ∈ outcomes, o.Clean) : NoneBetween outcomes := by
  intro done hp m
  exact (paired_of_clean fun o ho => h o (hp.subset ho)).settled m

theorem NoneBetween.clean (h : NoneBetween outcomes) (hp : (done ++ [o]).IsPrefix outcomes) :
    o.Clean := by
  by_contra hclean
  obtain ⟨m, hm⟩ := RgaOutcome.exists_held hclean
  have hbefore := h done ((List.prefix_append _ _).trans hp) m
  have hafter := h (done ++ [o]) hp m
  rw [letterboxCalls_append_singleton, held_append] at hafter
  omega

end Balance

theorem handlesBalanced_nil : HandlesBalanced [] where
  released_once := paired_nil
  own := by
    intro done o hp
    exact absurd (List.prefix_nil.mp hp) (by simp)
  between := by
    intro done hp m
    rw [List.prefix_nil.mp hp]
    rfl

/-- The handles are balanced exactly if every call but the last obtains no handle, or both and
resizes, and the last call obtains none.  If the last call may leave its handles to
`image_hanle_free`, it must only not release them itself. -/
theorem handlesBalanced_iff (outcomes : List RgaOutcome) :
    (HandlesBalanced outcomes ↔
      (∀ o ∈ outcomes.dropLast, o.NoHandle ∨ o.Resized) ∧
        ∀ o ∈ outcomes.getLast?, o.NoHandle) ∧
    (Paired (imageHanleFree (letterboxCalls outcomes)).trace ∧ OwnHandlesOnly outcomes ↔
      (∀ o ∈ outcomes.dropLast, o.NoHandle ∨ o.Resized) ∧
        ∀ o ∈ outcomes.getLast?, ¬ o.Resized) := by
  rcases List.eq_nil_or_concat outcomes with rfl | ⟨done, last, rfl⟩
  · have hnil := handlesBalanced_nil
    exact ⟨iff_of_true hnil (by simp), iff_of_true ⟨hnil.released_once, hnil.own⟩ (by simp)⟩
  · rw [List.concat_eq_append, List.dropLast_concat, List.getLast?_concat]
    have hreleased := letterboxCalls_released_iff done last
    constructor
    · constructor
      · intro h
        obtain ⟨hclean, hlast⟩ := hreleased.mp ⟨h.released_once, h.own⟩
        have hcleanLast := h.between.clean (List.prefix_refl (done ++ [last]))
        exact ⟨hclean, fun o ho => Option.some.inj ho ▸ hcleanLast.resolve_right hlast⟩
      · intro ⟨hclean, hnone⟩
        have hlast : last.NoHandle := hnone last rfl
        obtain ⟨hpaired, hown⟩ := hreleased.mpr
          ⟨hclean, fun h => RgaOutcome.not_noHandle_of_resized h hlast⟩
        refine ⟨hpaired, hown, noneBetween_of_clean ?_⟩
        intro o ho
        rcases List.mem_append.mp ho with hdone | hmem
        · exact hclean o hdone
        · exact .inl (List.mem_singleton.mp hmem ▸ hlast)
    · rw [hreleased]
      apply and_congr_right
      intro _
      exact ⟨fun h o ho => Option.some.inj ho ▸ h, fun h => h last rfl⟩

/-- What a successful call has released is released again at shutdown, and a handle whose
partner could not be imported is never released. -/
theorem handlesBalanced_releasedTwice :
    (imageHanleFree (letterboxCalls [⟨1, 2, true⟩])).trace =
        [acquire 1, acquire 2, release 1, release 2, release 1, release 2] ∧
      ¬ HandlesBalanced [⟨1, 2, true⟩] ∧ ¬ HandlesBalanced [⟨1, 0, false⟩, ⟨0, 0, false⟩] := by
  refine ⟨by decide, ?_, ?_⟩
  · intro h
    have hreleased := (letterboxCalls_released_iff [] ⟨1, 2, true⟩).mp ⟨h.released_once, h.own⟩
    exact hreleased.2 (by decide)
  · intro h
    have hreleased := (letterboxCalls_released_iff [⟨1, 0, false⟩] ⟨0, 0, false⟩).mp
      ⟨h.released_once, h.own⟩
    rcases hreleased.1 _ List.mem_cons_self with hnone | hresized
    · exact absurd hnone (by decide)
    · exact absurd hresized (by decide)

end CatDect.ImageHandle
