import CatDect.Pipeline.Queue

/-!
# The ownership of the result slots

Here `inference_yolov5_model` is not one step but several: `rknn_run`, the clearing of the
list, one store for each entry and the store of the count.  The flags keep `rkn_result_get`
out of the first inference, but no flag is taken back before the next one, and a copy
that falls into it may find the list cleared or half written.
-/

namespace CatDect.Pipeline

open CatDect.Support CatDect.Postprocess CatDect.ImageHandle

/-! ## The code -/

def writeEntry (l : ObjectDetectResultList) (k : ℕ) (e : ObjectDetectResult) :
    ObjectDetectResultList :=
  { l with results := l.results.setIfInBounds k e }

/-- The store `od_results->count = last_count`, for the list that is being made. -/
def writeCount (l final : ObjectDetectResultList) : ObjectDetectResultList :=
  { l with count := final.count, count_le := final.count_le }

inductive Phase
  | run
  | clear
  | entry (k : ℕ)
  | count
deriving DecidableEq

/-- One `memcpy` of `rkn_result_get`: whether `rknn_thread` was inferring into the slot, how
many inferences had returned, and what was copied. -/
structure Copy where
  inferring : Bool
  finished : ℕ
  list : ObjectDetectResultList

structure FineState where
  base : State
  phase : Phase
  copies : List Copy

namespace FineState

def init : FineState := ⟨.init, .run, []⟩

def store (w : FineState) (i : Fin 2) (r : Result) : State :=
  { w.base with odResults := Function.update w.base.odResults i r }

/-- The return from `inference_yolov5_model`, `r` being the last store to the slot. -/
def finish (env : Env) (w : FineState) (i : Fin 2) (r : Result) : FineState :=
  { w with
    base := { threadStep env w.base with
      odResults := Function.update w.base.odResults i r }
    phase := .run }

end FineState

def inferStep (env : Env) (w : FineState) (i : Fin 2) : FineState :=
  let final := env.postProcess w.base.inferences
  match w.phase with
  | .run =>
      if env.rknnRun w.base.inferences < 0 then { w with base := threadStep env w.base }
      else { w with phase := .clear }
  | .clear =>
      -- `post_process` returns here if it finds no candidate
      if final.reported = [] then w.finish env i ⟨.zero, some w.base.input⟩
      else { w with base := w.store i ⟨.zero, none⟩, phase := .entry 0 }
  | .entry k =>
      match final.reported[k]? with
      | some e =>
          { w with
            base := w.store i ⟨writeEntry (w.base.odResults i).list k e, none⟩
            phase := if k + 1 < final.reported.length then .entry (k + 1) else .count }
      | none => { w with phase := .count }
  | .count => w.finish env i ⟨writeCount (w.base.odResults i).list final, some w.base.input⟩

def fineStep (env : Env) (w : FineState) : Proc → FineState
  | .main =>
      { w with
        base := mainStep env w.base
        copies := match w.base.main with
          | .getCopy i =>
              w.copies ++ [⟨decide (w.base.thread = .infer i), w.base.inferences,
                (w.base.odResults i).list⟩]
          | _ => w.copies }
  | .thread =>
      match w.base.thread with
      | .infer i => inferStep env w i
      | _ => { w with base := threadStep env w.base }

/-! ## The list an inference leaves -/

def partly (final : ObjectDetectResultList) : ℕ → ObjectDetectResultList
  | 0 => .zero
  | k + 1 =>
      match final.reported[k]? with
      | some e => writeEntry (partly final k) k e
      | none => partly final k

def finished (final : ObjectDetectResultList) : ObjectDetectResultList :=
  if final.reported = [] then .zero else writeCount (partly final final.reported.length) final

/-- What the last successful one of the first `n` inferences has left. -/
def lastList (env : Env) : ℕ → ObjectDetectResultList
  | 0 => .zero
  | n + 1 => if env.rknnRun n < 0 then lastList env n else finished (env.postProcess n)

theorem partly_results (final : ObjectDetectResultList) {k : ℕ}
    (hk : k ≤ final.reported.length) :
    (partly final k).id = 0 ∧ (partly final k).results.toList =
      final.reported.take k ++
        List.replicate (objNumbMaxSize - k) ObjectDetectResultList.zeroEntry := by
  have hmax : final.reported.length ≤ objNumbMaxSize := by
    unfold ObjectDetectResultList.reported
    rw [List.length_take, Vector.length_toList]
    exact min_le_right _ _
  induction k with
  | zero => exact ⟨rfl, rfl⟩
  | succ k ih =>
      obtain ⟨hid, hlist⟩ := ih (by omega)
      have hlt : k < final.reported.length := hk
      have hget : final.reported[k]? = some final.reported[k] := List.getElem?_eq_getElem hlt
      have hlen : (final.reported.take k).length = k := by
        rw [List.length_take]
        omega
      have hrest : objNumbMaxSize - k = objNumbMaxSize - (k + 1) + 1 := by omega
      rw [partly, hget]
      refine ⟨hid, ?_⟩
      show ((partly final k).results.setIfInBounds k final.reported[k]).toList = _
      rw [Vector.toList_setIfInBounds, hlist, List.set_append_right _ _ (by omega), hlen,
        Nat.sub_self, hrest, List.replicate_succ, List.set_cons_zero,
        List.take_succ_eq_append_getElem hlt, List.append_assoc]
      rfl

theorem finished_eq {final : ObjectDetectResultList} (h : final.Fresh) :
    finished final = final := by
  have hlen := ObjectDetectResultList.reported_length h.count_nonneg
  unfold finished
  split
  · rename_i hnil
    exact ObjectDetectResultList.Fresh.zero.ext h hnil.symm
  · obtain ⟨hid, hlist⟩ := partly_results final le_rfl
    have hcount : final.count.toNat = final.reported.length := by omega
    rw [List.take_length] at hlist
    have hresults : (writeCount (partly final final.reported.length) final).results.toList =
        final.reported ++ List.replicate (objNumbMaxSize - final.reported.length)
          ObjectDetectResultList.zeroEntry := hlist
    apply ObjectDetectResultList.Fresh.ext _ h
    · show (writeCount _ final).results.toList.take final.count.toNat = final.reported
      rw [hresults, hcount, List.take_left]
    · refine ⟨hid, h.count_nonneg, ?_⟩
      show (writeCount _ final).results.toList.drop final.count.toNat = _
      rw [hresults, hcount, List.drop_left]
      show _ = List.replicate (objNumbMaxSize - final.count.toNat) _
      rw [hcount]

/-! ## The promise -/

/-- No list was copied during an inference on its slot, what was copied is what the last
inference had left, and only such lists were drawn. -/
structure OwnedExclusively (env : Env) (w : FineState) : Prop where
  apart : ∀ c ∈ w.copies, c.inferring = false
  whole : ∀ c ∈ w.copies, c.list = lastList env c.finished
  drawn : ∀ d ∈ w.base.drawn, ∃ c ∈ w.copies, c.list = d.result.list

/-- No copy of `rkn_result_get` falls into the second or a later inference on its slot. -/
def CopiesApart (w : FineState) (p : Proc) : Prop :=
  p = .main → ∀ i, w.base.main = .getCopy i → w.base.inferences ≠ 0 → w.base.thread ≠ .infer i

structure Writing (env : Env) (w : FineState) : Prop where
  control : Control w.base
  phase_run : (∀ i, w.base.thread ≠ .infer i) → w.phase = .run
  raised : w.base.rkndoOk 0 = true ∨
    (∃ i, w.base.thread = .clearResize i ∨ w.base.thread = .setDo i) ∨
    (∃ i, w.base.main = .getCopy i) → w.base.inferences ≠ 0
  success : w.phase ≠ .run → 0 ≤ env.rknnRun w.base.inferences
  at_rest : w.phase = .run ∨ w.phase = .clear →
    (w.base.odResults 0).list = lastList env w.base.inferences
  writing : ∀ k, w.phase = .entry k →
    k < (env.postProcess w.base.inferences).reported.length ∧
      (w.base.odResults 0).list = partly (env.postProcess w.base.inferences) k
  counting : w.phase = .count → (env.postProcess w.base.inferences).reported ≠ [] ∧
    (w.base.odResults 0).list = partly (env.postProcess w.base.inferences)
      (env.postProcess w.base.inferences).reported.length
  fetched : w.base.main = .draw ∨ (∃ i, w.base.main = .getClear i) →
    ∃ c ∈ w.copies, c.list = w.base.runResult.list

theorem writing_init (env : Env) : Writing env .init where
  control := control_init
  phase_run := fun _ => rfl
  raised := by
    rintro (h | ⟨i, h | h⟩ | ⟨i, h⟩)
    · exact absurd h (by simp [FineState.init, State.init])
    · exact absurd h (by simp [FineState.init, State.init])
    · exact absurd h (by simp [FineState.init, State.init])
    · exact absurd h (by simp [FineState.init, State.init])
  success := fun h => absurd rfl h
  at_rest := fun _ => rfl
  writing := fun k h => absurd h (by simp [FineState.init])
  counting := fun h => absurd h (by simp [FineState.init])
  fetched := by
    rintro (h | ⟨i, h⟩)
    · exact absurd h (by simp [FineState.init, State.init])
    · exact absurd h (by simp [FineState.init, State.init])

section Writing

variable {env : Env} {w : FineState}

theorem Control.store {s : State} (h : Control s) (r : Fin 2 → Result) :
    Control { s with odResults := r } := by
  obtain ⟨⟨h1, h2, h3⟩, ⟨h4, h5, h6, h7⟩, h8, h9⟩ := h
  exact ⟨⟨h1, h2, h3⟩, ⟨h4, h5, h6, h7⟩, h8, h9⟩

theorem Writing.finish (h : Writing env w) {i : Fin 2} (hpc : w.base.thread = .infer i)
    (hsuccess : 0 ≤ env.rknnRun w.base.inferences) {r : Result}
    (hr : r.list = finished (env.postProcess w.base.inferences)) :
    Writing env (w.finish env i r) := by
  have hi : i = 0 := h.control.thread_at hpc
  subst hi
  have hcontrol : Control (w.finish env 0 r).base :=
    Control.store h.control.threadStep _
  have hlast : lastList env (w.base.inferences + 1) = r.list := by
    rw [lastList, if_neg (by omega), hr]
  refine ⟨hcontrol, fun _ => rfl, ?_, fun hp => absurd rfl hp, ?_, ?_, ?_, ?_⟩
  · intro _
    unfold FineState.finish threadStep
    simp only [hpc]
    exact Nat.succ_ne_zero _
  · intro _
    unfold FineState.finish threadStep
    simp only [hpc, Function.update_self]
    exact hlast.symm
  · exact fun k hk => absurd hk (by simp [FineState.finish])
  · exact fun hk => absurd hk (by simp [FineState.finish])
  · unfold FineState.finish threadStep
    simp only [hpc]
    exact h.fetched

theorem Writing.inferStep (h : Writing env w) {i : Fin 2} (hpc : w.base.thread = .infer i) :
    Writing env (inferStep env w i) := by
  have hi : i = 0 := h.control.thread_at hpc
  subst hi
  have hin : ∀ w' : FineState, w'.base.thread = w.base.thread → (∀ i, w'.base.thread ≠ .infer i) →
      w'.phase = .run := fun w' hw' hne => absurd (hw'.trans hpc) (hne 0)
  unfold Pipeline.inferStep
  cases hphase : w.phase with
  | run =>
      have hrest := h.at_rest (.inl hphase)
      dsimp only
      split
      · rename_i hfail
        refine ⟨h.control.threadStep, fun _ => rfl, ?_, fun hp => absurd rfl hp, ?_, ?_, ?_, ?_⟩
        · intro _
          unfold Pipeline.threadStep
          simp only [hpc]
          exact Nat.succ_ne_zero _
        · intro _
          unfold Pipeline.threadStep
          simp only [hpc, if_pos hfail]
          rw [lastList, if_pos hfail]
          exact hrest
        · exact fun k hk => absurd hk (by simp)
        · exact fun hk => absurd hk (by simp)
        · unfold Pipeline.threadStep
          simp only [hpc]
          exact h.fetched
      · rename_i hsuccess
        refine ⟨h.control, hin _ rfl, h.raised, fun _ => not_lt.mp hsuccess, fun _ => hrest,
          fun k hk => absurd hk (by simp), fun hk => absurd hk (by simp), h.fetched⟩
  | clear =>
      have hsuccess := h.success (by rw [hphase]; simp)
      dsimp only
      split
      · rename_i hnone
        apply h.finish hpc hsuccess
        rw [finished, if_pos hnone]
      · rename_i hsome
        refine ⟨h.control.store _, hin _ rfl, h.raised, fun _ => hsuccess, ?_, ?_, ?_, h.fetched⟩
        · rintro (hp | hp)
          · exact absurd hp (by simp)
          · exact absurd hp (by simp)
        · intro k hk
          obtain rfl := Phase.entry.inj hk
          refine ⟨List.length_pos_of_ne_nil hsome, ?_⟩
          simp only [FineState.store, Function.update_self]
          rfl
        · exact fun hk => absurd hk (by simp)
  | entry k =>
      have hsuccess := h.success (by rw [hphase]; simp)
      obtain ⟨hk, hlist⟩ := h.writing k hphase
      have hget : (env.postProcess w.base.inferences).reported[k]? =
          some (env.postProcess w.base.inferences).reported[k] := List.getElem?_eq_getElem hk
      have hnext : writeEntry (w.base.odResults 0).list k
          (env.postProcess w.base.inferences).reported[k] =
            partly (env.postProcess w.base.inferences) (k + 1) := by
        rw [partly, hget, hlist]
      dsimp only
      rw [hget]
      refine ⟨h.control.store _, hin _ rfl, h.raised, fun _ => hsuccess, ?_, ?_, ?_, h.fetched⟩
      · rintro (hp | hp)
        · exact absurd hp (by dsimp only; split <;> simp)
        · exact absurd hp (by dsimp only; split <;> simp)
      · intro j hj
        dsimp only at hj
        split at hj
        · rename_i hlt
          obtain rfl := Phase.entry.inj hj
          refine ⟨hlt, ?_⟩
          simp only [FineState.store, Function.update_self]
          exact hnext
        · exact absurd hj (by simp)
      · intro hcount
        dsimp only at hcount
        split at hcount
        · exact absurd hcount (by simp)
        · rename_i hlast
          have hend : k + 1 = (env.postProcess w.base.inferences).reported.length := by omega
          refine ⟨List.ne_nil_of_length_eq_add_one hend.symm, ?_⟩
          simp only [FineState.store, Function.update_self]
          rw [← hend]
          exact hnext
  | count =>
      have hsuccess := h.success (by rw [hphase]; simp)
      obtain ⟨hsome, hlist⟩ := h.counting hphase
      apply h.finish hpc hsuccess
      rw [finished, if_neg hsome, ← hlist]

theorem threadStep_outside {s : State} (env : Env) (hpc : ∀ i, s.thread ≠ .infer i) :
    (threadStep env s).inferences = s.inferences ∧
      (threadStep env s).odResults = s.odResults := by
  cases hthread : s.thread with
  | infer i => exact absurd hthread (hpc i)
  | scan i | check | copy i =>
      unfold threadStep
      simp only [hthread]
      split <;> exact ⟨rfl, rfl⟩
  | clearResize i | setDo i | crashed =>
      unfold threadStep
      simp only [hthread]
      exact ⟨trivial, trivial⟩

theorem threadStep_raised {s : State} (env : Env) (hpc : ∀ i, s.thread ≠ .infer i) :
    (threadStep env s).rkndoOk 0 = true ∨ (∃ i, (threadStep env s).thread = .clearResize i ∨
      (threadStep env s).thread = .setDo i) →
    s.rkndoOk 0 = true ∨ ∃ i, s.thread = .clearResize i ∨ s.thread = .setDo i := by
  cases hthread : s.thread with
  | infer i => exact absurd hthread (hpc i)
  | scan i =>
      unfold threadStep
      simp only [hthread]
      intro hr
      split at hr
      · simpa using hr
      · left
        rcases hr with hr | ⟨j, hr⟩
        · exact hr
        · dsimp only at hr
          split at hr <;> simp at hr
  | check | copy i =>
      unfold threadStep
      simp only [hthread]
      split <;> simp
  | clearResize i | setDo i => exact fun _ => .inr ⟨i, by simp⟩
  | crashed =>
      unfold threadStep
      simp [hthread]

theorem Writing.outside (h : Writing env w) (hpc : ∀ i, w.base.thread ≠ .infer i) :
    Writing env { w with base := threadStep env w.base } := by
  have hk := threadKeeps env w.base
  have hcontrol : Control (threadStep env w.base) := h.control.threadStep
  have hphase := h.phase_run hpc
  have hrest := h.at_rest (.inl hphase)
  have hraised := threadStep_raised env hpc
  obtain ⟨hinferences, hod⟩ := threadStep_outside env hpc
  refine ⟨hcontrol, fun _ => hphase, ?_, fun hp => absurd hphase hp, ?_, ?_, ?_, ?_⟩
  · rw [hinferences]
    intro hr
    apply h.raised
    rcases hr with hr | hr | hr
    · exact (hraised (.inl hr)).imp id .inl
    · exact (hraised (.inr hr)).imp id .inl
    · rw [hk.main_eq] at hr
      exact .inr (.inr hr)
  · rw [hinferences, hod]
    exact fun _ => hrest
  · exact fun k hp => absurd (hphase.symm.trans hp) (by simp)
  · exact fun hp => absurd (hphase.symm.trans hp) (by simp)
  · rw [hk.main_eq, hk.runResult_eq]
    exact h.fetched

theorem mainStep_fetched (env : Env) (s : State) :
    ((mainStep env s).main = .draw ∨ (∃ i, (mainStep env s).main = .getClear i)) →
      (∃ i, s.main = .getCopy i ∧ (mainStep env s).runResult = s.odResults i) ∨
        ((∃ i, s.main = .getClear i) ∧ (mainStep env s).runResult = s.runResult) := by
  cases hpc : s.main with
  | getCopy i =>
      unfold mainStep
      simp only [hpc]
      exact fun _ => .inl ⟨i, rfl, rfl⟩
  | getClear i =>
      unfold mainStep
      simp only [hpc]
      exact fun _ => .inr ⟨⟨i, rfl⟩, trivial⟩
  | poll | resize | draw | addRead i | getRead i =>
      unfold mainStep
      simp only [hpc]
      split <;> simp
  | clear | addStore i | addSet i | aborted =>
      unfold mainStep
      simp [hpc]

theorem mainStep_getCopy {s : State} {i : Fin 2} (h : (mainStep env s).main = .getCopy i) :
    s.main = .getRead i ∧ s.rkndoOk i = true := by
  revert h
  cases hpc : s.main with
  | getRead j =>
      unfold mainStep
      simp only [hpc]
      intro h
      split at h
      · rename_i hdone
        obtain rfl := MainPc.getCopy.inj h
        exact ⟨rfl, hdone⟩
      · exact absurd h (by simp)
  | poll | resize | draw | addRead j =>
      unfold mainStep
      simp only [hpc]
      split <;> simp
  | clear | addStore j | addSet j | getCopy j | getClear j | aborted =>
      unfold mainStep
      simp [hpc]

theorem Writing.mainStep (h : Writing env w) : Writing env (fineStep env w .main) := by
  have hk := mainKeeps env w.base
  have hcopies : ∀ c ∈ w.copies, c ∈ (fineStep env w .main).copies := by
    intro c hc
    unfold fineStep
    dsimp only
    split
    · exact List.mem_append_left _ hc
    · exact hc
  refine ⟨h.control.mainStep, ?_, ?_, ?_, ?_, ?_, ?_, ?_⟩
  · show (∀ i, (Pipeline.mainStep env w.base).thread ≠ _) → _
    rw [hk.thread_eq]
    exact h.phase_run
  · show (Pipeline.mainStep env w.base).rkndoOk 0 = true ∨
        (∃ i, (Pipeline.mainStep env w.base).thread = .clearResize i ∨
          (Pipeline.mainStep env w.base).thread = .setDo i) ∨
        (∃ i, (Pipeline.mainStep env w.base).main = .getCopy i) →
      (Pipeline.mainStep env w.base).inferences ≠ 0
    rw [hk.rkndoOk_eq, hk.thread_eq, hk.inferences_eq]
    rintro (hr | hr | ⟨i, hr⟩)
    · exact h.raised (.inl hr)
    · exact h.raised (.inr (.inl hr))
    · obtain ⟨-, hdone⟩ := mainStep_getCopy hr
      apply h.raised
      left
      rw [← h.control.slot_of_done hdone]
      exact hdone
  · show w.phase ≠ .run → 0 ≤ env.rknnRun (Pipeline.mainStep env w.base).inferences
    rw [hk.inferences_eq]
    exact h.success
  · show _ → ((Pipeline.mainStep env w.base).odResults 0).list =
      lastList env (Pipeline.mainStep env w.base).inferences
    rw [hk.inferences_eq, hk.odResults_eq]
    exact h.at_rest
  · show ∀ k, w.phase = .entry k →
      k < (env.postProcess (Pipeline.mainStep env w.base).inferences).reported.length ∧
        ((Pipeline.mainStep env w.base).odResults 0).list =
          partly (env.postProcess (Pipeline.mainStep env w.base).inferences) k
    rw [hk.inferences_eq, hk.odResults_eq]
    exact h.writing
  · show w.phase = .count →
      (env.postProcess (Pipeline.mainStep env w.base).inferences).reported ≠ [] ∧
        ((Pipeline.mainStep env w.base).odResults 0).list =
          partly (env.postProcess (Pipeline.mainStep env w.base).inferences)
            (env.postProcess (Pipeline.mainStep env w.base).inferences).reported.length
    rw [hk.inferences_eq, hk.odResults_eq]
    exact h.counting
  · intro hmain
    show ∃ c ∈ (fineStep env w .main).copies, c.list =
      (Pipeline.mainStep env w.base).runResult.list
    rcases mainStep_fetched env w.base hmain with ⟨i, hpc, heq⟩ | ⟨hpc, heq⟩
    · rw [heq]
      refine ⟨⟨decide (w.base.thread = .infer i), w.base.inferences,
        (w.base.odResults i).list⟩, ?_, rfl⟩
      simp [fineStep, hpc]
    · obtain ⟨c, hc, hlist⟩ := h.fetched (.inr hpc)
      rw [heq]
      exact ⟨c, hcopies c hc, hlist⟩

theorem Writing.step (h : Writing env w) (p : Proc) : Writing env (fineStep env w p) := by
  cases p with
  | main => exact h.mainStep
  | thread =>
      cases hpc : w.base.thread with
      | infer i =>
          simp only [fineStep, hpc]
          exact h.inferStep hpc
      | scan i | check | copy i | clearResize i | setDo i | crashed =>
          simp only [fineStep, hpc]
          exact h.outside (by simp [hpc])

/-! ## One step -/

theorem mainStep_drawn_cases (env : Env) (s : State) :
    ∀ d ∈ (mainStep env s).drawn, d ∈ s.drawn ∨ (s.main = .draw ∧ d.result = s.runResult) := by
  intro d hd
  by_cases hpc : s.main = .draw
  · unfold mainStep at hd
    simp only [hpc] at hd
    split at hd
    · rcases List.mem_append.mp hd with hold | hnew
      · exact .inl hold
      · rw [List.mem_singleton.mp hnew]
        exact .inr ⟨hpc, rfl⟩
    · exact .inl hd
  · rw [mainStep_drawn hpc] at hd
    exact .inl hd

theorem OwnedExclusively.of_copies (h : OwnedExclusively env w) {w' : FineState}
    (hcopies : w'.copies = w.copies)
    (hdrawn : ∀ d ∈ w'.base.drawn, ∃ c ∈ w.copies, c.list = d.result.list) :
    OwnedExclusively env w' := by
  refine ⟨?_, ?_, ?_⟩
  · rw [hcopies]
    exact h.apart
  · rw [hcopies]
    exact h.whole
  · rw [hcopies]
    exact hdrawn

theorem OwnedExclusively.mainStep_iff (h : OwnedExclusively env w) (hw : Writing env w) :
    OwnedExclusively env (fineStep env w .main) ↔ CopiesApart w .main := by
  have hdrawn : ∀ d ∈ (fineStep env w .main).base.drawn,
      ∃ c ∈ w.copies, c.list = d.result.list := by
    intro d hd
    rcases mainStep_drawn_cases env w.base d hd with hold | ⟨hpc, heq⟩
    · exact h.drawn d hold
    · rw [heq]
      exact hw.fetched (.inl hpc)
  by_cases hcopy : ∃ i, w.base.main = .getCopy i
  · obtain ⟨i, hpc⟩ := hcopy
    have hi : i = 0 := hw.control.main_at hpc
    subst hi
    -- the first inference has returned, or `rkndo_ok` would not be set
    have hstarted := hw.raised (.inr (.inr ⟨0, hpc⟩))
    have hcopies : (fineStep env w .main).copies = w.copies ++
        [⟨decide (w.base.thread = .infer 0), w.base.inferences, (w.base.odResults 0).list⟩] := by
      simp only [fineStep, hpc]
    constructor
    · rintro h' - i hi - hinfer
      have hapart := h'.apart _ (by rw [hcopies]; exact List.mem_append_right _ List.mem_cons_self)
      rw [hpc] at hi
      obtain rfl := MainPc.getCopy.inj hi
      exact of_decide_eq_false hapart hinfer
    · intro hapart
      have hout := hapart rfl 0 hpc hstarted
      have hidle : ∀ i, w.base.thread ≠ .infer i := by
        intro i hi
        have hzero : i = 0 := hw.control.thread_at hi
        rw [hzero] at hi
        exact hout hi
      refine ⟨?_, ?_, ?_⟩
      · rw [hcopies]
        intro c hc
        rcases List.mem_append.mp hc with hold | hnew
        · exact h.apart c hold
        · rw [List.mem_singleton.mp hnew]
          exact decide_eq_false hout
      · rw [hcopies]
        intro c hc
        rcases List.mem_append.mp hc with hold | hnew
        · exact h.whole c hold
        · rw [List.mem_singleton.mp hnew]
          exact hw.at_rest (.inl (hw.phase_run hidle))
      · rw [hcopies]
        intro d hd
        obtain ⟨c, hc, hlist⟩ := hdrawn d hd
        exact ⟨c, List.mem_append_left _ hc, hlist⟩
  · have hcopies : (fineStep env w .main).copies = w.copies := by
      unfold fineStep
      dsimp only
      split
      · rename_i i hpc
        exact absurd ⟨i, hpc⟩ hcopy
      · rfl
    constructor
    · exact fun _ _ i hi => absurd ⟨i, hi⟩ hcopy
    · exact fun _ => h.of_copies hcopies hdrawn

theorem fineStep_thread_keeps (env : Env) (w : FineState) :
    (fineStep env w .thread).copies = w.copies ∧
      (fineStep env w .thread).base.drawn = w.base.drawn := by
  have hk := (threadKeeps env w.base).drawn_eq
  cases hpc : w.base.thread with
  | infer i =>
      simp only [fineStep, hpc, inferStep, FineState.finish, FineState.store]
      split
      · split
        · exact ⟨rfl, hk⟩
        · exact ⟨rfl, rfl⟩
      · split
        · exact ⟨rfl, hk⟩
        · exact ⟨rfl, rfl⟩
      · split <;> exact ⟨rfl, rfl⟩
      · exact ⟨rfl, hk⟩
  | scan i | check | copy i | clearResize i | setDo i | crashed =>
      simp only [fineStep, hpc]
      exact ⟨trivial, hk⟩

theorem OwnedExclusively.step_iff (h : OwnedExclusively env w) (hw : Writing env w) (p : Proc) :
    OwnedExclusively env (fineStep env w p) ↔ CopiesApart w p := by
  cases p with
  | main => exact h.mainStep_iff hw
  | thread =>
      obtain ⟨hcopies, hdrawn⟩ := fineStep_thread_keeps env w
      constructor
      · exact fun _ hp => absurd hp (by simp)
      · exact fun _ => h.of_copies hcopies (hdrawn ▸ h.drawn)

end Writing

/-- **When a slot is owned exclusively.**  Throughout a run no list is copied during an
inference on it, and only lists that an inference has finished are drawn, exactly if no copy
falls into the second or a later inference. -/
theorem ownedExclusively_iff (env : Env) (schedule : List Proc) :
    Throughout (fineStep env) .init (OwnedExclusively env) schedule ↔
      Along (fineStep env) .init CopiesApart schedule := by
  apply throughout_iff_along (writing_init env) (fun _ p h => h.step p) _
    (fun _ p hw h => h.step_iff hw p) schedule
  exact ⟨fun _ hc => absurd hc List.not_mem_nil, fun _ hc => absurd hc List.not_mem_nil,
    fun _ hd => absurd hd List.not_mem_nil⟩

def oneEntryEnv : Env := { quietEnv with postProcess := fun _ => catInView }

/-- `main` queues a frame, `rknn_thread` does its round and is in the next inference, past the
clearing of the list, when `main` fetches its first result. -/
def fetchInSecondInference : List Proc := steps .main 6 ++ steps .thread 15 ++ steps .main 2

theorem cleared_list_copied :
    ¬ Throughout (fineStep oneEntryEnv) .init (OwnedExclusively oneEntryEnv)
      fetchInSecondInference := by
  intro h
  have hapart := (h fetchInSecondInference (List.prefix_refl _)).apart
  have hcopies : (run (fineStep oneEntryEnv) .init fetchInSecondInference).copies =
      [⟨true, 1, .zero⟩] := by rfl
  rw [hcopies] at hapart
  exact absurd (hapart _ List.mem_cons_self) (by simp)

/-! ## One inference without interruption -/

theorem run_steps_succ (env : Env) (w : FineState) (p : Proc) (n : ℕ) :
    run (fineStep env) w (steps p (n + 1)) = fineStep env (run (fineStep env) w (steps p n)) p := by
  unfold steps
  rw [List.replicate_succ', run_append_singleton]

section Alone

variable {env : Env} {w : FineState} {i : Fin 2}

theorem run_two (hpc : w.base.thread = .infer i) (hphase : w.phase = .run)
    (hsuccess : 0 ≤ env.rknnRun w.base.inferences) :
    run (fineStep env) w (steps .thread 2) = fineStep env { w with phase := .clear } .thread := by
  have hstart : fineStep env w .thread = { w with phase := .clear } := by
    simp only [fineStep, hpc, inferStep, hphase, if_neg (not_lt.mpr hsuccess)]
  rw [← hstart]
  rfl

theorem run_entries (hpc : w.base.thread = .infer i) (hphase : w.phase = .run)
    (hsuccess : 0 ≤ env.rknnRun w.base.inferences)
    (hsome : (env.postProcess w.base.inferences).reported ≠ []) {k : ℕ}
    (hk : k ≤ (env.postProcess w.base.inferences).reported.length) :
    run (fineStep env) w (steps .thread (k + 2)) =
      { w with
        base := w.store i ⟨partly (env.postProcess w.base.inferences) k, none⟩
        phase := if k < (env.postProcess w.base.inferences).reported.length then .entry k
          else .count } := by
  induction k with
  | zero =>
      rw [if_pos (List.length_pos_of_ne_nil hsome), run_two hpc hphase hsuccess]
      simp only [fineStep, hpc, inferStep, if_neg hsome]
      rfl
  | succ k ih =>
      have hlt : k < (env.postProcess w.base.inferences).reported.length := hk
      have hget := List.getElem?_eq_getElem hlt
      rw [show k + 1 + 2 = k + 2 + 1 from rfl, run_steps_succ, ih hlt.le, if_pos hlt]
      simp only [fineStep, FineState.store, hpc, inferStep, hget, Function.update_idem,
        Function.update_self, partly]

theorem FineState.finish_eq (hpc : w.base.thread = .infer i) (r : Result) :
    w.finish env i r =
      { w with
        base := { w.base with
          odResults := Function.update w.base.odResults i r
          inferences := w.base.inferences + 1
          thread := .clearResize i }
        phase := .run } := by
  unfold FineState.finish threadStep
  simp only [hpc]

/-- Without a step of `main` in between, an inference is the one step of the pipeline. -/
theorem inference_alone (hpc : w.base.thread = .infer i) (hphase : w.phase = .run)
    (hfresh : (env.postProcess w.base.inferences).Fresh) :
    ∃ n, run (fineStep env) w (steps .thread n) = { w with base := threadStep env w.base } := by
  have hfinal := finished_eq hfresh
  by_cases hsuccess : 0 ≤ env.rknnRun w.base.inferences
  · have hinfer : threadStep env w.base =
        { w.base with
          odResults := Function.update w.base.odResults i
            ⟨env.postProcess w.base.inferences, some w.base.input⟩
          inferences := w.base.inferences + 1
          thread := .clearResize i } := by
      simp only [threadStep, hpc, if_neg (not_lt.mpr hsuccess)]
    rw [hinfer]
    by_cases hsome : (env.postProcess w.base.inferences).reported = []
    · rw [finished, if_pos hsome] at hfinal
      refine ⟨2, ?_⟩
      rw [run_two hpc hphase hsuccess]
      simp only [fineStep, hpc, inferStep, if_pos hsome]
      rw [FineState.finish_eq (w := { w with phase := .clear }) hpc, ← hfinal, hphase]
    · rw [finished, if_neg hsome] at hfinal
      refine ⟨(env.postProcess w.base.inferences).reported.length + 2 + 1, ?_⟩
      rw [run_steps_succ, run_entries hpc hphase hsuccess hsome le_rfl, if_neg (lt_irrefl _)]
      simp only [fineStep, FineState.store, hpc, inferStep, Function.update_self]
      rw [FineState.finish_eq rfl, hfinal, hphase, Function.update_idem]
  · refine ⟨1, ?_⟩
    have hone : run (fineStep env) w (steps .thread 1) = fineStep env w .thread := rfl
    rw [hone]
    simp only [fineStep, hpc, inferStep, hphase, if_pos (not_le.mp hsuccess)]

end Alone

end CatDect.Pipeline
