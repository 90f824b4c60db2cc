import CatDect.Pipeline.Localisation

/-!
# Failing inferences

`inference_yolov5_model` returns an error if `rknn_run` fails and leaves the list as it is.
Neither of its callers looks at the value: `rknn_thread` announces the list all the same,
and the loop without the queue draws it.
-/

namespace CatDect.Pipeline

open CatDect.Support CatDect.Postprocess CatDect.ImageHandle

/-- The last of the first `n` calls of `rknn_run` that did not fail. -/
def lastSuccess (env : Env) : ℕ → Option ℕ
  | 0 => none
  | n + 1 => if env.rknnRun n < 0 then lastSuccess env n else some n

theorem lastSuccess_lt {env : Env} {n j : ℕ} (h : lastSuccess env n = some j) : j < n := by
  induction n with
  | zero => exact absurd h (by simp [lastSuccess])
  | succ n ih =>
      rw [lastSuccess] at h
      split at h
      · exact (ih h).trans (Nat.lt_succ_self n)
      · rw [← Option.some.inj h]
        exact Nat.lt_succ_self n

theorem lastSuccess_ne_none {env : Env} {n : ℕ} :
    lastSuccess env n ≠ none ↔ ∃ j < n, 0 ≤ env.rknnRun j := by
  induction n with
  | zero => simp [lastSuccess]
  | succ n ih =>
      rw [lastSuccess]
      constructor
      · intro h
        split at h
        · obtain ⟨j, hj, hsuccess⟩ := ih.mp h
          exact ⟨j, hj.trans (Nat.lt_succ_self n), hsuccess⟩
        · exact ⟨n, Nat.lt_succ_self n, by omega⟩
      · rintro ⟨j, hj, hsuccess⟩
        split
        · rename_i hfail
          have hne : j ≠ n := by
            rintro rfl
            omega
          exact ih.mpr ⟨j, by omega, hsuccess⟩
        · simp

def NotEarlier (k : ℕ) (source : Option Pixels) : Prop := ∀ j < k, source ≠ some (.frame j)

/-! ## With the queue -/

/-- An observer: what `rknn_run` has read, call by call, how many calls had returned when
`main` copied the list it holds, and the same for every list drawn. -/
structure Attempts where
  inputs : List Pixels
  fetch : ℕ
  fetches : List ℕ

def Attempts.none : Attempts := ⟨[], 0, []⟩

def Attempts.next (s : State) (p : Proc) (m : Attempts) : Attempts :=
  match p with
  | .main =>
      match s.main with
      | .getCopy _ => { m with fetch := s.inferences }
      | .draw => { m with fetches := m.fetches ++ [m.fetch] }
      | _ => m
  | .thread =>
      match s.thread with
      | .infer _ => { m with inputs := m.inputs ++ [s.input] }
      | _ => m

namespace Attempts

def Failed (env : Env) (m : Attempts) (p : Pixels) : Prop :=
  ∃ n, m.inputs[n]? = some p ∧ env.rknnRun n < 0

/-- The image that the last successful one of the first `n` calls has read. -/
def origin (env : Env) (m : Attempts) (n : ℕ) : Option Pixels :=
  (lastSuccess env n).bind fun j => m.inputs[j]?

end Attempts

/-- Every list drawn stems from a successful `rknn_run`, and where `rknn_run` failed for a
frame, the list drawn for it from no earlier frame. -/
def NothingFromFailure (env : Env) (s : State) (m : Attempts) : Prop :=
  ∀ (k : ℕ) (d : Drawn), s.drawn[k]? = some d → d.result.source ≠ none ∧
    (m.Failed env (.frame k) → NotEarlier k d.result.source)

/-- Before the list in hand was copied some `rknn_run` had succeeded, and the last that had
did not read an earlier frame's image, if `rknn_run` has failed for the frame in work; and
`rknn_run` fails for no frame whose list was copied after a success on an earlier frame. -/
def FailureHarmless (env : Env) (w : State × Attempts) (p : Proc) : Prop :=
  (p = .main → w.1.main = .draw → (∃ j < w.2.fetch, 0 ≤ env.rknnRun j) ∧
    (w.2.Failed env (.frame w.1.frame) → NotEarlier w.1.frame (w.2.origin env w.2.fetch))) ∧
  (p = .thread → (∃ i, w.1.thread = .infer i) → env.rknnRun w.1.inferences < 0 →
    ∀ k n, w.1.input = .frame k → w.2.fetches[k]? = some n → NotEarlier k (w.2.origin env n))

structure Attempted (env : Env) (s : State) (m : Attempts) : Prop where
  inputs_length : m.inputs.length = s.inferences
  fetch_le : m.fetch ≤ s.inferences
  slot_eq : (s.odResults 0).source = m.origin env s.inferences
  held_eq : s.main = .draw ∨ (∃ i, s.main = .getClear i) →
    s.runResult.source = m.origin env m.fetch
  drawn_eq : s.drawn.map (fun d => d.result.source) = m.fetches.map (m.origin env)
  fetches_le : ∀ n ∈ m.fetches, n ≤ s.inferences

theorem attempted_init (env : Env) : Attempted env .init .none where
  inputs_length := rfl
  fetch_le := Nat.le_refl 0
  slot_eq := rfl
  held_eq := by
    rintro (h | ⟨i, h⟩)
    · exact absurd h (by simp [State.init])
    · exact absurd h (by simp [State.init])
  drawn_eq := rfl
  fetches_le := fun _ h => absurd h List.not_mem_nil

section Attempted

variable {env : Env} {s s' : State} {m : Attempts}

theorem origin_append (p : Pixels) {n : ℕ} (hn : n ≤ m.inputs.length) :
    Attempts.origin env { m with inputs := m.inputs ++ [p] } n = m.origin env n := by
  unfold Attempts.origin
  cases hlast : lastSuccess env n with
  | none => rfl
  | some j =>
      have hj := lastSuccess_lt hlast
      exact List.getElem?_append_left (by omega)

theorem Attempted.of_same (h : Attempted env s m) (hinferences : s'.inferences = s.inferences)
    (hod : s'.odResults = s.odResults) (hdrawn : s'.drawn = s.drawn)
    (hmain : s'.main ≠ .draw ∧ ∀ i, s'.main ≠ .getClear i) : Attempted env s' m := by
  obtain ⟨h1, h2, h3, h4, h5, h6⟩ := h
  refine ⟨by rw [hinferences, h1], by rw [hinferences]; exact h2,
    by rw [hod, hinferences, h3], ?_, by rw [hdrawn, h5], ?_⟩
  · rintro (hdraw | ⟨i, hclear⟩)
    · exact absurd hdraw hmain.1
    · exact absurd hclear (hmain.2 i)
  · rw [hinferences]
    exact h6

theorem Attempted.mainStep (h : Attempted env s m) (hc : Control s) :
    Attempted env (mainStep env s) (m.next s .main) := by
  cases hpc : s.main with
  | getCopy i =>
      have hi : i = 0 := hc.main_at hpc
      subst hi
      simp only [Pipeline.mainStep, Attempts.next, hpc]
      exact ⟨h.inputs_length, le_rfl, h.slot_eq, fun _ => h.slot_eq, h.drawn_eq, h.fetches_le⟩
  | getClear i =>
      simp only [Pipeline.mainStep, Attempts.next, hpc]
      exact ⟨h.inputs_length, h.fetch_le, h.slot_eq, fun _ => h.held_eq (.inr ⟨i, hpc⟩),
        h.drawn_eq, h.fetches_le⟩
  | draw =>
      obtain ⟨st, -, -, hstep⟩ := hc.toMainSide.draw env hpc
      rw [hstep]
      simp only [Attempts.next, hpc]
      refine ⟨h.inputs_length, h.fetch_le, h.slot_eq, by simp, ?_, ?_⟩
      · rw [List.map_append, List.map_append, h.drawn_eq, List.map_singleton, List.map_singleton,
          h.held_eq (.inl hpc)]
        rfl
      · intro n hn
        rcases List.mem_append.mp hn with hold | hnew
        · exact h.fetches_le n hold
        · rw [List.mem_singleton.mp hnew]
          exact h.fetch_le
  | poll | resize =>
      simp only [Attempts.next, hpc, Pipeline.mainStep]
      split <;> exact h.of_same rfl rfl rfl (by simp)
  | addRead i | getRead i =>
      simp only [Attempts.next, hpc, Pipeline.mainStep]
      split <;> exact h.of_same rfl rfl rfl (by simp)
  | clear | addStore i | addSet i =>
      simp only [Attempts.next, hpc, Pipeline.mainStep]
      exact h.of_same rfl rfl rfl (by simp)
  | aborted =>
      exact (hc.main_at hpc).elim

theorem Attempted.infer (h : Attempted env s m) (hc : Control s) {i : Fin 2}
    (hpc : s.thread = .infer i) : Attempted env (threadStep env s) (m.next s .thread) := by
  have hk := threadKeeps env s
  have hi : i = 0 := hc.thread_at hpc
  subst hi
  have hnext : m.next s .thread = { m with inputs := m.inputs ++ [s.input] } := by
    simp only [Attempts.next, hpc]
  have hinferences : (Pipeline.threadStep env s).inferences = s.inferences + 1 := by
    simp only [Pipeline.threadStep, hpc]
  rw [hnext]
  refine ⟨?_, ?_, ?_, ?_, ?_, ?_⟩
  · rw [hinferences, List.length_append, h.inputs_length, List.length_singleton]
  · rw [hinferences]
    exact h.fetch_le.trans (Nat.le_succ _)
  · rw [hinferences]
    by_cases hfail : env.rknnRun s.inferences < 0
    · have hlast : lastSuccess env (s.inferences + 1) = lastSuccess env s.inferences := by
        rw [lastSuccess, if_pos hfail]
      have horigin : Attempts.origin env { m with inputs := m.inputs ++ [s.input] } s.inferences =
          m.origin env s.inferences := origin_append s.input h.inputs_length.ge
      simp only [Pipeline.threadStep, hpc, if_pos hfail]
      rw [h.slot_eq, ← horigin]
      unfold Attempts.origin
      rw [hlast]
    · have hlast : lastSuccess env (s.inferences + 1) = some s.inferences := by
        rw [lastSuccess, if_neg hfail]
      simp only [Pipeline.threadStep, hpc, if_neg hfail, Function.update_self]
      unfold Attempts.origin
      rw [hlast, Option.bind_some, ← h.inputs_length, List.getElem?_concat_length]
  · rw [hk.main_eq, hk.runResult_eq]
    intro hmain
    rw [h.held_eq hmain]
    exact (origin_append s.input (h.inputs_length ▸ h.fetch_le)).symm
  · rw [hk.drawn_eq, h.drawn_eq]
    apply List.map_congr_left
    intro n hn
    exact (origin_append s.input (h.inputs_length ▸ h.fetches_le n hn)).symm
  · rw [hinferences]
    exact fun n hn => (h.fetches_le n hn).trans (Nat.le_succ _)

theorem Attempted.threadStep (h : Attempted env s m) (hc : Control s) :
    Attempted env (threadStep env s) (m.next s .thread) := by
  cases hpc : s.thread with
  | infer i => exact h.infer hc hpc
  | scan i | check | copy i =>
      simp only [Attempts.next, hpc, Pipeline.threadStep]
      split <;> exact ⟨h.inputs_length, h.fetch_le, h.slot_eq, h.held_eq, h.drawn_eq, h.fetches_le⟩
  | clearResize i | setDo i | crashed =>
      simp only [Attempts.next, hpc, Pipeline.threadStep]
      exact ⟨h.inputs_length, h.fetch_le, h.slot_eq, h.held_eq, h.drawn_eq, h.fetches_le⟩

/-! ### One step -/

theorem Attempted.origin_ne_none (h : Attempted env s m) {n : ℕ} (hn : n ≤ s.inferences) :
    m.origin env n ≠ none ↔ ∃ j < n, 0 ≤ env.rknnRun j := by
  rw [← lastSuccess_ne_none]
  unfold Attempts.origin
  cases hlast : lastSuccess env n with
  | none => simp
  | some j =>
      have hj : j < m.inputs.length := by
        have hlt := lastSuccess_lt hlast
        have hlength := h.inputs_length
        omega
      simp [List.getElem?_eq_getElem hj]

theorem Attempted.drawn_source (h : Attempted env s m) {k : ℕ} {d : Drawn}
    (hd : s.drawn[k]? = some d) :
    ∃ n, m.fetches[k]? = some n ∧ d.result.source = m.origin env n := by
  have hsource := congrArg (fun l => l[k]?) h.drawn_eq
  simp only [List.getElem?_map, hd, Option.map_some] at hsource
  obtain ⟨n, hn, heq⟩ := Option.map_eq_some_iff.mp hsource.symm
  exact ⟨n, hn, heq.symm⟩

theorem Attempted.drawn_fetched (h : Attempted env s m) {k n : ℕ}
    (hn : m.fetches[k]? = some n) :
    ∃ d, s.drawn[k]? = some d ∧ d.result.source = m.origin env n := by
  have hsource := congrArg (fun l => l[k]?) h.drawn_eq
  simp only [List.getElem?_map, hn, Option.map_some] at hsource
  exact Option.map_eq_some_iff.mp hsource

theorem failed_append (h : Attempted env s m) (p : Pixels) :
    Attempts.Failed env { m with inputs := m.inputs ++ [s.input] } p ↔
      m.Failed env p ∨ (p = s.input ∧ env.rknnRun s.inferences < 0) := by
  unfold Attempts.Failed
  constructor
  · rintro ⟨n, hn, hfail⟩
    rcases Nat.lt_or_ge n m.inputs.length with hlt | hge
    · rw [List.getElem?_append_left hlt] at hn
      exact .inl ⟨n, hn, hfail⟩
    · rw [List.getElem?_append_right hge, List.getElem?_singleton] at hn
      have hlength := h.inputs_length
      split at hn
      · have heq : n = s.inferences := by omega
        exact .inr ⟨(Option.some.inj hn).symm, heq ▸ hfail⟩
      · exact absurd hn (by simp)
  · rintro (⟨n, hn, hfail⟩ | ⟨rfl, hfail⟩)
    · have hlt := (List.getElem?_eq_some_iff.mp hn).1
      exact ⟨n, by rw [List.getElem?_append_left hlt, hn], hfail⟩
    · exact ⟨s.inferences, by rw [← h.inputs_length, List.getElem?_concat_length], hfail⟩

theorem NothingFromFailure.draw_iff (hp : NothingFromFailure env s m) (h : Attempted env s m)
    (hc : Control s) (hb : Book s) (hpc : s.main = .draw) :
    NothingFromFailure env (mainStep env s) (m.next s .main) ↔
      (∃ j < m.fetch, 0 ≤ env.rknnRun j) ∧
        (m.Failed env (.frame s.frame) → NotEarlier s.frame (m.origin env m.fetch)) := by
  obtain ⟨st, -, -, hstep⟩ := hc.toMainSide.draw env hpc
  have hheld := h.held_eq (.inl hpc)
  have hnext : m.next s .main = { m with fetches := m.fetches ++ [m.fetch] } := by
    simp only [Attempts.next, hpc]
  rw [← h.origin_ne_none h.fetch_le, ← hheld, hnext, hstep]
  constructor
  · intro h'
    apply h' s.frame ⟨s.runResult, st.printed, st.aims⟩
    rw [← hb.drawn_length]
    exact List.getElem?_concat_length
  · rintro hlast k d hd
    rcases Nat.lt_or_ge k s.drawn.length with hlt | hge
    · rw [List.getElem?_append_left hlt] at hd
      exact hp k d hd
    · rw [List.getElem?_append_right hge, List.getElem?_singleton] at hd
      split at hd
      · have hk : k = s.frame := by
          have hlength := hb.drawn_length
          omega
        rw [← Option.some.inj hd, hk]
        exact hlast
      · exact absurd hd (by simp)

theorem NothingFromFailure.infer_iff (hp : NothingFromFailure env s m) (h : Attempted env s m)
    {i : Fin 2} (hpc : s.thread = .infer i) :
    NothingFromFailure env (threadStep env s) (m.next s .thread) ↔
      (env.rknnRun s.inferences < 0 → ∀ k n, s.input = .frame k → m.fetches[k]? = some n →
        NotEarlier k (m.origin env n)) := by
  have hnext : m.next s .thread = { m with inputs := m.inputs ++ [s.input] } := by
    simp only [Attempts.next, hpc]
  unfold NothingFromFailure
  rw [hnext, (threadKeeps env s).drawn_eq]
  constructor
  · intro h' hfail k n hinput hn
    obtain ⟨d, hd, hsource⟩ := h.drawn_fetched hn
    rw [← hsource]
    exact (h' k d hd).2 ((failed_append h _).mpr (.inr ⟨hinput.symm, hfail⟩))
  · intro hcond k d hd
    refine ⟨(hp k d hd).1, ?_⟩
    intro hfailed
    rcases (failed_append h _).mp hfailed with hold | ⟨hinput, hfail⟩
    · exact (hp k d hd).2 hold
    · obtain ⟨n, hn, hsource⟩ := h.drawn_source hd
      rw [hsource]
      exact hcond hfail k n hinput.symm hn

theorem NothingFromFailure.step_iff (hp : NothingFromFailure env s m) (h : Attempted env s m)
    (hc : Control s) (hb : Book s) (p : Proc) :
    NothingFromFailure env (step env s p) (m.next s p) ↔ FailureHarmless env (s, m) p := by
  cases p with
  | main =>
      by_cases hpc : s.main = .draw
      · rw [step, hp.draw_iff h hc hb hpc]
        constructor
        · exact fun h' => ⟨fun _ _ => h', fun hp => absurd hp (by simp)⟩
        · exact fun h' => h'.1 rfl hpc
      · have hinputs : (m.next s .main).inputs = m.inputs := by
          cases hmain : s.main <;> simp only [Attempts.next, hmain]
        constructor
        · exact fun _ => ⟨fun _ hdraw => absurd hdraw hpc, fun hp => absurd hp (by simp)⟩
        · intro _
          unfold NothingFromFailure Attempts.Failed
          rw [hinputs, step, mainStep_drawn hpc]
          exact hp
  | thread =>
      by_cases hpc : ∃ i, s.thread = .infer i
      · obtain ⟨i, hi⟩ := hpc
        rw [step, hp.infer_iff h hi]
        constructor
        · exact fun h' => ⟨fun hp => absurd hp (by simp), fun _ _ => h'⟩
        · exact fun h' => h'.2 rfl ⟨i, hi⟩
      · have hsame : m.next s .thread = m := by
          dsimp only [Attempts.next]
          split
          · rename_i hinfer
            exact absurd ⟨_, hinfer⟩ hpc
          · rfl
        constructor
        · exact fun _ => ⟨fun hp => absurd hp (by simp), fun _ hinfer => absurd hinfer hpc⟩
        · intro _
          unfold NothingFromFailure
          rw [hsame, step, (threadKeeps env s).drawn_eq]
          exact hp

end Attempted

theorem attempted_step {env : Env} (w : State × Attempts) (p : Proc)
    (h : (Control w.1 ∧ Book w.1) ∧ Attempted env w.1 w.2) :
    (Control (step env w.1 p) ∧ Book (step env w.1 p)) ∧
      Attempted env (step env w.1 p) (w.2.next w.1 p) := by
  obtain ⟨⟨hc, hb⟩, h⟩ := h
  refine ⟨⟨hc.step p, hb.step hc p⟩, ?_⟩
  cases p with
  | main => exact h.mainStep hc
  | thread => exact h.threadStep hc

def attemptsAfter (env : Env) (schedule : List Proc) : State × Attempts :=
  run (watch (step env) Attempts.next) (.init, .none) schedule

theorem attempted_after (env : Env) (schedule : List Proc) :
    (attemptsAfter env schedule).1 = after env schedule ∧
      Attempted env (after env schedule) (attemptsAfter env schedule).2 := by
  have hstate : (attemptsAfter env schedule).1 = after env schedule := run_watch_fst ..
  have hinv : (Control (attemptsAfter env schedule).1 ∧ Book (attemptsAfter env schedule).1) ∧
      Attempted env (attemptsAfter env schedule).1 (attemptsAfter env schedule).2 :=
    run_invariant
      (I := fun w : State × Attempts => (Control w.1 ∧ Book w.1) ∧ Attempted env w.1 w.2)
      ⟨⟨control_init, book_init⟩, attempted_init env⟩ (fun w p h => attempted_step w p h) schedule
  rw [← hstate]
  exact ⟨rfl, hinv.2⟩

theorem throughout_nothingFromFailure (env : Env) (schedule : List Proc) :
    Throughout (watch (step env) Attempts.next) (.init, .none)
        (fun w => NothingFromFailure env w.1 w.2) schedule ↔
      Along (watch (step env) Attempts.next) (.init, .none) (FailureHarmless env) schedule := by
  apply throughout_iff_along
    (I := fun w : State × Attempts => (Control w.1 ∧ Book w.1) ∧ Attempted env w.1 w.2)
  · exact ⟨⟨control_init, book_init⟩, attempted_init env⟩
  · exact fun w p h => attempted_step w p h
  · exact fun k d hd => absurd hd (by simp [State.init])
  · rintro ⟨s, m⟩ p ⟨⟨hc, hb⟩, h⟩ hp
    exact hp.step_iff h hc hb p

/-! ## Without the queue -/

def SyncNothingFromFailure (env : Env) (s : SyncState) : Prop :=
  ∀ (k : ℕ) (d : Drawn), s.drawn[k]? = some d → d.result.source ≠ none ∧
    (env.rknnRun k < 0 → NotEarlier k d.result.source)

structure SyncTrace (env : Env) (n : ℕ) (s : SyncState) : Prop where
  configured : Configured s.globals
  frame_eq : s.frame = n
  imported : ∀ j < n, env.rga j ≠ .importFailed
  runResult_source : s.runResult.source = (lastSuccess env n).map .frame
  drawn_source : s.drawn.map (fun d => d.result.source) =
    (List.range n).map fun k => (lastSuccess env (k + 1)).map .frame

section Sync

variable {env : Env} {n : ℕ} {s : SyncState}

theorem syncTrace_init (env : Env) (uninitialised : ObjectDetectResultList) :
    SyncTrace env 0 (.init uninitialised) where
  configured := configured_init
  frame_eq := rfl
  imported := fun _ hj => absurd hj (Nat.not_lt_zero _)
  runResult_source := rfl
  drawn_source := rfl

theorem SyncTrace.syncFrame (h : SyncTrace env n s) (himport : env.rga n ≠ .importFailed) :
    ∃ s', syncFrame env s = some s' ∧ SyncTrace env (n + 1) s' := by
  obtain ⟨g, st, -, -, hst, hframe⟩ := syncFrame_spec h.configured (h.frame_eq.symm ▸ himport)
  have hsource : (s.inferred env).source = (lastSuccess env (n + 1)).map .frame := by
    unfold SyncState.inferred
    rw [h.frame_eq, lastSuccess]
    split
    · exact h.runResult_source
    · rfl
  refine ⟨_, hframe, hst, congrArg (· + 1) h.frame_eq, ?_, hsource, ?_⟩
  · intro j hj
    rcases Nat.lt_succ_iff_lt_or_eq.mp hj with hlt | rfl
    · exact h.imported j hlt
    · exact himport
  · rw [List.map_append, h.drawn_source, List.map_singleton, hsource, List.range_succ,
      List.map_append, List.map_singleton]

theorem syncRun_trace (env : Env) (uninitialised : ObjectDetectResultList) (n : ℕ)
    (himport : ∀ j < n, env.rga j ≠ .importFailed) :
    ∃ s, syncRun env uninitialised n = some s ∧ SyncTrace env n s := by
  induction n with
  | zero => exact ⟨_, rfl, syncTrace_init env uninitialised⟩
  | succ n ih =>
      obtain ⟨s, hs, htrace⟩ := ih fun j hj => himport j (hj.trans (Nat.lt_succ_self n))
      obtain ⟨s', hs', htrace'⟩ := htrace.syncFrame (himport n (Nat.lt_succ_self n))
      refine ⟨s', ?_, htrace'⟩
      rw [syncRun_succ, hs, Option.bind_some, hs']

theorem syncRun_imported {uninitialised : ObjectDetectResultList}
    (hrun : syncRun env uninitialised n = some s) : ∀ j < n, env.rga j ≠ .importFailed := by
  induction n generalizing s with
  | zero => exact fun _ hj => absurd hj (Nat.not_lt_zero _)
  | succ n ih =>
      rw [syncRun_succ] at hrun
      obtain ⟨s₁, hs₁, hlast⟩ := Option.bind_eq_some_iff.mp hrun
      have himport := ih hs₁
      obtain ⟨s₁', hs₁', htrace⟩ := syncRun_trace env uninitialised n himport
      have hsame := Option.some.inj (hs₁.symm.trans hs₁')
      subst hsame
      intro j hj
      rcases Nat.lt_succ_iff_lt_or_eq.mp hj with hlt | rfl
      · exact himport j hlt
      · intro hfail
        rw [← htrace.frame_eq] at hfail
        exact absurd (hlast.symm.trans (syncFrame_importFailed htrace.configured hfail)) (by simp)

theorem syncRun_eq_some {uninitialised : ObjectDetectResultList}
    (hrun : syncRun env uninitialised n = some s) : SyncTrace env n s := by
  obtain ⟨s', hs', htrace⟩ := syncRun_trace env uninitialised n (syncRun_imported hrun)
  have hsame := Option.some.inj (hrun.symm.trans hs')
  subst hsame
  exact htrace

theorem SyncTrace.source (h : SyncTrace env n s) {k : ℕ} {d : Drawn}
    (hd : s.drawn[k]? = some d) :
    k < n ∧ d.result.source = (lastSuccess env (k + 1)).map .frame := by
  have hsource := congrArg (fun l => l[k]?) h.drawn_source
  simp only [List.getElem?_map, hd, Option.map_some] at hsource
  obtain ⟨k', hk', heq⟩ := Option.map_eq_some_iff.mp hsource.symm
  obtain ⟨_, hget⟩ := List.getElem?_eq_some_iff.mp hk'
  rw [List.getElem_range] at hget
  rw [hget]
  exact ⟨List.mem_range.mp (List.mem_of_getElem? hk'), heq.symm⟩

theorem sync_nothingFromFailure (env : Env) (uninitialised : ObjectDetectResultList) (n : ℕ) :
    (∀ m ≤ n, ∀ s, syncRun env uninitialised m = some s → SyncNothingFromFailure env s) ↔
      ∀ k < n, (∀ j ≤ k, env.rga j ≠ .importFailed) → 0 ≤ env.rknnRun k := by
  constructor
  · intro h k hk himport
    by_contra hfail
    obtain ⟨s, hs, htrace⟩ := syncRun_trace env uninitialised (k + 1)
      fun j hj => himport j (Nat.lt_succ_iff.mp hj)
    have hlength : k < s.drawn.length := by
      have hlist := congrArg List.length htrace.drawn_source
      simp only [List.length_map, List.length_range] at hlist
      omega
    have hd := List.getElem?_eq_getElem hlength
    obtain ⟨-, hsource⟩ := htrace.source hd
    obtain ⟨hsome, hearlier⟩ := h (k + 1) hk s hs k _ hd
    rw [lastSuccess, if_pos (not_le.mp hfail)] at hsource
    cases hlast : lastSuccess env k with
    | none =>
        rw [hlast] at hsource
        exact hsome hsource
    | some j =>
        rw [hlast] at hsource
        exact hearlier (not_le.mp hfail) j (lastSuccess_lt hlast) hsource
  · intro h m hm s hs k d hd
    have htrace := syncRun_eq_some hs
    obtain ⟨hk, hsource⟩ := htrace.source hd
    have hsuccess := h k (by omega) fun j hj => htrace.imported j (by omega)
    rw [lastSuccess, if_neg (not_lt.mpr hsuccess)] at hsource
    refine ⟨by simp [hsource], fun hfail => absurd hsuccess (not_le.mpr hfail)⟩

end Sync

end CatDect.Pipeline
