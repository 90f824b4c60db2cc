import CatDect.Pipeline.Queue

/-!
# The order of the delivered results

The sequential program hands the result of frame `k` to the `k`-th call of `draw_result`;
the pipeline is allowed to lag one frame behind.  `rkn_result_get` waits for `rkndo_ok` but
never clears it, so from the second frame on it does not wait at all, and whether the
pipeline refines the sequential program depends on the schedule.
-/

namespace CatDect.Pipeline

open CatDect.Support

/-! ## The promise -/

/-- What `draw_result` was given stems from accepted frames, each at most once and in the
order of acceptance, the `k`-th list from frame `k` or `k - 1`. -/
def DeliveredInOrder (s : State) : Prop :=
  ∃ frames : List ℕ,
    s.drawn.map (fun d => d.result.source) = frames.map (fun f => some (.frame f)) ∧
    frames.Pairwise (· < ·) ∧
    ∀ k f, frames[k]? = some f → (∃ i, (f, i) ∈ s.accepted) ∧ (f = k ∨ f + 1 = k)

theorem eq_range_of_lag {frames : List ℕ} (hsorted : frames.Pairwise (· < ·))
    (hlag : ∀ k f, frames[k]? = some f → f = k ∨ f + 1 = k) :
    frames = List.range frames.length := by
  have hge : ∀ k f : ℕ, frames[k]? = some f → k ≤ f := by
    intro k
    induction k with
    | zero => exact fun f _ => Nat.zero_le f
    | succ k ih =>
        intro f hf
        have hlt := (List.getElem?_eq_some_iff.mp hf).1
        obtain ⟨e, he⟩ : ∃ e, frames[k]? = some e := ⟨_, List.getElem?_eq_getElem (by omega)⟩
        obtain ⟨hk, hek⟩ := List.getElem?_eq_some_iff.mp he
        obtain ⟨hk', hfk⟩ := List.getElem?_eq_some_iff.mp hf
        have hef := List.pairwise_iff_getElem.mp hsorted k (k + 1) hk hk' (Nat.lt_succ_self k)
        have := ih e he
        omega
  apply List.ext_getElem?
  intro k
  by_cases hk : k < frames.length
  · have hget := List.getElem?_eq_getElem hk
    have hf := hlag k _ hget
    have := hge k _ hget
    rw [hget, List.getElem?_range hk]
    congr 1
    omega
  · rw [List.getElem?_eq_none (by omega), List.getElem?_eq_none (by simpa using hk)]

section Delivered

variable {env : Env} {s s' : State}

theorem deliveredInOrder_iff (hb : Book s) :
    DeliveredInOrder s ↔
      s.drawn.map (fun d => d.result.source) =
        (List.range s.frame).map fun f => some (.frame f) := by
  constructor
  · rintro ⟨frames, hsources, hsorted, hlag⟩
    have hlen : frames.length = s.frame := by
      rw [← hb.drawn_length]
      simpa using (congrArg List.length hsources).symm
    rw [hsources, eq_range_of_lag hsorted fun k f hf => (hlag k f hf).2, hlen]
  · intro hsources
    refine ⟨List.range s.frame, hsources, List.pairwise_lt_range, ?_⟩
    intro k f hf
    obtain ⟨hk, heq⟩ := List.getElem?_eq_some_iff.mp hf
    rw [List.getElem_range] at heq
    rw [List.length_range] at hk
    refine ⟨⟨0, ?_⟩, .inl heq.symm⟩
    rw [hb.accepted_eq, List.mem_map]
    exact ⟨f, List.mem_range.mpr (by split <;> omega), rfl⟩

theorem DeliveredInOrder.draw_iff (h : DeliveredInOrder s) (hb : Book s) (hb' : Book s')
    {d : Drawn} (hdrawn : s'.drawn = s.drawn ++ [d]) (hframe : s'.frame = s.frame + 1) :
    DeliveredInOrder s' ↔ d.result.source = some (.frame s.frame) := by
  rw [deliveredInOrder_iff hb'] at *
  rw [deliveredInOrder_iff hb] at h
  rw [hdrawn, hframe, List.map_append, h, List.range_succ, List.map_append, List.append_right_inj]
  simp

end Delivered

/-! ## What `rknn_thread` has done for the frame in work -/

/-- An observer of the schedule: the image of the frame in work has been copied last, the
last successful inference ran on it, and the list that `main` holds was copied after that. -/
structure Progress where
  copied : Bool
  inferred : Bool
  got : Bool

def Progress.none : Progress := ⟨false, false, false⟩

def Progress.next (env : Env) (s : State) (p : Proc) (m : Progress) : Progress :=
  match p with
  | .main =>
      match s.main with
      | .getCopy _ => { m with got := m.inferred }
      | .draw => .none
      | _ => m
  | .thread =>
      match s.thread with
      | .copy i =>
          match (s.resizeImages i).image.pixels s.dstBuf with
          | some q => { m with copied := decide (q = .frame s.frame) }
          | Option.none => m
      | .infer _ => if env.rknnRun s.inferences < 0 then m else { m with inferred := m.copied }
      | _ => m

/-- `main` draws only a list that it copied after `rknn_thread` had copied the image of the
frame in work and had run the network on it. -/
def DrawsCurrent (w : State × Progress) (p : Proc) : Prop :=
  p = .main → w.1.main = .draw → w.2.got = true

structure Tracks (s : State) (m : Progress) : Prop where
  copied_iff : m.copied = true ↔ s.input = .frame s.frame
  inferred_iff : m.inferred = true ↔ (s.odResults 0).source = some (.frame s.frame)
  got_iff : s.main = .draw ∨ (∃ i, s.main = .getClear i) →
    (m.got = true ↔ s.runResult.source = some (.frame s.frame))

theorem tracks_init : Tracks .init .none where
  copied_iff := by simp [State.init, Progress.none]
  inferred_iff := by simp [State.init, Progress.none]
  got_iff := by simp [State.init]

section Tracks

variable {env : Env} {s s' : State} {m : Progress}

theorem Tracks.of_same (h : Tracks s m) (hinput : s'.input = s.input)
    (hod : s'.odResults = s.odResults) (hframe : s'.frame = s.frame)
    (hmain : s'.main ≠ .draw ∧ ∀ i, s'.main ≠ .getClear i) : Tracks s' m := by
  constructor
  · rw [hinput, hframe]
    exact h.copied_iff
  · rw [hod, hframe]
    exact h.inferred_iff
  · rintro (hdraw | ⟨i, hclear⟩)
    · exact absurd hdraw hmain.1
    · exact absurd hclear (hmain.2 i)

theorem Tracks.mainStep (h : Tracks s m) (hc : Control s) (hb : Book s)
    (hs : Sourced s.offsets.length s) : Tracks (mainStep env s) (m.next env s .main) := by
  cases hpc : s.main with
  | getCopy i =>
      have hi : i = 0 := hc.main_at hpc
      subst hi
      simp only [Pipeline.mainStep, Progress.next, hpc]
      exact ⟨h.copied_iff, h.inferred_iff, fun _ => h.inferred_iff⟩
  | getClear i =>
      simp only [Pipeline.mainStep, Progress.next, hpc]
      exact ⟨h.copied_iff, h.inferred_iff, fun _ => h.got_iff (.inr ⟨i, hpc⟩)⟩
  | draw =>
      -- nothing stems from the frame that is polled next
      obtain ⟨st, -, -, hstep⟩ := hc.toMainSide.draw env hpc
      have hlen : s.offsets.length = s.frame + 1 := by
        rw [hb.offsets_eq, hpc, List.length_replicate]
        rfl
      have hinput : s.input ≠ .frame (s.frame + 1) := by
        intro heq
        have hbelow := hs.input
        rw [heq, hlen] at hbelow
        exact absurd hbelow (Nat.lt_irrefl _)
      have hod : (s.odResults 0).source ≠ some (.frame (s.frame + 1)) := by
        intro heq
        have hbelow := hs.odResults 0 _ heq
        rw [hlen] at hbelow
        exact absurd hbelow (Nat.lt_irrefl _)
      rw [hstep]
      simp only [Progress.next, hpc]
      exact ⟨by simp [Progress.none, hinput], by simp [Progress.none, hod], by simp⟩
  | poll | resize =>
      simp only [Progress.next, hpc, Pipeline.mainStep]
      split <;> exact h.of_same rfl rfl rfl (by simp)
  | addRead i | getRead i =>
      simp only [Progress.next, hpc, Pipeline.mainStep]
      split <;> exact h.of_same rfl rfl rfl (by simp)
  | clear | addStore i | addSet i =>
      simp only [Progress.next, hpc, Pipeline.mainStep]
      exact h.of_same rfl rfl rfl (by simp)
  | aborted =>
      exact (hc.main_at hpc).elim

theorem Tracks.threadStep (h : Tracks s m) (hc : Control s) :
    Tracks (threadStep env s) (m.next env s .thread) := by
  have hk := threadKeeps env s
  have hgot : s.main = .draw ∨ (∃ i, s.main = .getClear i) →
      (m.got = true ↔ (Pipeline.threadStep env s).runResult.source =
        some (.frame (Pipeline.threadStep env s).frame)) := by
    rw [hk.runResult_eq, hk.frame_eq]
    exact h.got_iff
  rw [← hk.main_eq] at hgot
  cases hpc : s.thread with
  | copy i =>
      revert hgot
      cases hpixels : (s.resizeImages i).image.pixels s.dstBuf with
      | some q =>
          simp only [Pipeline.threadStep, Progress.next, hpc, hpixels]
          exact fun hgot => ⟨by simp, h.inferred_iff, hgot⟩
      | none =>
          simp only [Pipeline.threadStep, Progress.next, hpc, hpixels]
          exact fun hgot => ⟨h.copied_iff, h.inferred_iff, hgot⟩
  | infer i =>
      have hi : i = 0 := hc.thread_at hpc
      subst hi
      revert hgot
      simp only [Pipeline.threadStep, Progress.next, hpc]
      split
      · exact fun hgot => ⟨h.copied_iff, h.inferred_iff, hgot⟩
      · refine fun hgot => ⟨h.copied_iff, ?_, hgot⟩
        simp only [Function.update_self, Option.some_inj]
        exact h.copied_iff
  | scan i | check =>
      revert hgot
      simp only [Pipeline.threadStep, Progress.next, hpc]
      split <;> exact fun hgot => ⟨h.copied_iff, h.inferred_iff, hgot⟩
  | clearResize i | setDo i | crashed =>
      revert hgot
      simp only [Pipeline.threadStep, Progress.next, hpc]
      exact fun hgot => ⟨h.copied_iff, h.inferred_iff, hgot⟩

theorem deliveredInOrder_init : DeliveredInOrder .init :=
  ⟨[], rfl, List.Pairwise.nil, fun k f hf => absurd hf (by simp)⟩

theorem DeliveredInOrder.of_same (h : DeliveredInOrder s) (hdrawn : s'.drawn = s.drawn)
    (haccepted : ∀ a ∈ s.accepted, a ∈ s'.accepted) : DeliveredInOrder s' := by
  obtain ⟨frames, hsources, hsorted, hlag⟩ := h
  refine ⟨frames, by rw [hdrawn, hsources], hsorted, ?_⟩
  intro k f hf
  obtain ⟨⟨i, hi⟩, hkf⟩ := hlag k f hf
  exact ⟨⟨i, haccepted _ hi⟩, hkf⟩

theorem accepted_prefix_mainStep (env : Env) (s : State) :
    s.accepted.IsPrefix (mainStep env s).accepted := by
  cases hmain : s.main with
  | addSet i =>
      unfold mainStep
      simp only [hmain]
      exact List.prefix_append _ _
  | poll | resize | draw =>
      unfold mainStep
      simp only [hmain]
      split <;> exact List.prefix_refl _
  | clear | addRead i | addStore i | getRead i | getCopy i | getClear i | aborted =>
      unfold mainStep
      simp only [hmain]
      exact List.prefix_refl _

theorem DeliveredInOrder.step_iff (h : DeliveredInOrder s) (hc : Control s) (hb : Book s)
    (ht : Tracks s m) (p : Proc) :
    DeliveredInOrder (step env s p) ↔ DrawsCurrent (s, m) p := by
  cases p with
  | thread =>
      have hk := threadKeeps env s
      constructor
      · exact fun _ hne => absurd hne (by simp)
      · intro _
        exact h.of_same hk.drawn_eq fun a ha => hk.accepted_eq ▸ ha
  | main =>
      by_cases hpc : s.main = .draw
      · obtain ⟨st, -, -, hstep⟩ := hc.toMainSide.draw env hpc
        have hb' : Book (Pipeline.mainStep env s) := hb.mainStep hc
        rw [show step env s .main = Pipeline.mainStep env s from rfl,
          h.draw_iff hb hb' (d := ⟨s.runResult, st.printed, st.aims⟩) (by rw [hstep])
            (by rw [hstep]), ← ht.got_iff (.inl hpc)]
        exact ⟨fun hgot _ _ => hgot, fun hcur => hcur rfl hpc⟩
      · constructor
        · exact fun _ _ hdraw => absurd hdraw hpc
        · intro _
          exact h.of_same (mainStep_drawn hpc) fun a ha =>
            (accepted_prefix_mainStep env s).subset ha

end Tracks

/-- **When the pipeline refines the sequential program.**  Throughout a run the lists drawn
stem from the accepted frames in their order, none repeated and none more than one frame
late, exactly if every list drawn was copied after `rknn_thread` had copied the image of
the frame in work and had run the network on it. -/
theorem deliveredInOrder_iff_drawsCurrent (env : Env) (schedule : List Proc) :
    Throughout (step env) .init DeliveredInOrder schedule ↔
      Along (watch (step env) (Progress.next env)) (.init, .none) DrawsCurrent schedule := by
  rw [← throughout_watch (step env) (Progress.next env) (P := DeliveredInOrder)
    (w := (.init, .none))]
  apply throughout_iff_along
    (I := fun w : State × Progress =>
      ((Control w.1 ∧ Book w.1) ∧ Sourced w.1.offsets.length w.1) ∧ Tracks w.1 w.2)
    ⟨⟨⟨control_init, book_init⟩, sourced_init _⟩, tracks_init⟩ _ deliveredInOrder_init _
    schedule
  · rintro ⟨s, m⟩ p ⟨⟨⟨hc, hb⟩, hs⟩, ht⟩
    refine ⟨⟨⟨hc.step p, hb.step hc p⟩, hs.step hb p⟩, ?_⟩
    cases p with
    | main => exact ht.mainStep hc hb hs
    | thread => exact ht.threadStep hc
  · rintro ⟨s, m⟩ p ⟨⟨⟨hc, hb⟩, -⟩, ht⟩ h
    exact h.step_iff hc hb ht p

def secondDrawEarly : List Proc := steps .main 6 ++ steps .thread 6 ++ steps .main 14

/-- The result of the first frame is drawn for the second frame again. -/
theorem first_result_delivered_twice :
    ¬ Throughout (step quietEnv) .init DeliveredInOrder secondDrawEarly := by
  intro h
  obtain ⟨frames, hsources, hsorted, -⟩ := h secondDrawEarly (List.prefix_refl _)
  have hdrawn : (run (step quietEnv) .init secondDrawEarly).drawn.map (fun d => d.result.source) =
      [some (.frame 0), some (.frame 0)] := by rfl
  rw [hdrawn] at hsources
  match frames with
  | [] | [_] | _ :: _ :: _ :: _ => simp at hsources
  | [a, b] =>
      simp only [List.map_cons, List.map_nil, List.cons.injEq, Option.some_inj,
        Pixels.frame.injEq, and_true] at hsources
      rw [← hsources.1, ← hsources.2] at hsorted
      simp at hsorted

end CatDect.Pipeline
