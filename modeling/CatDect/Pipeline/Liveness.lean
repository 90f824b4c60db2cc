import CatDect.Pipeline.ImageSize
import CatDect.Support.Fairness

/-!
# Progress of the two loops

`main` waits in `rkn_result_get` until the first inference is over.  From then on the flag
it waits for stays set, and it goes round at its own pace.  In a fair run in which the RGA
can import its buffers neither loop comes to a halt.
-/

namespace CatDect.Pipeline

open CatDect.Support CatDect.ImageHandle

/-! ## The pace of `main` -/

/-- The steps `main` has taken in its round.  After a look at the second slot, which never
has a result, it looks at the first one again. -/
def MainPc.phase : MainPc → ℕ
  | .poll | .aborted => 0
  | .clear => 1
  | .resize => 2
  | .addRead _ => 3
  | .addStore _ => 4
  | .addSet _ => 5
  | .getRead i => if i.val = 0 then 6 else 5
  | .getCopy _ => 7
  | .getClear _ => 8
  | .draw => 9

def MainPc.served : MainPc → Bool
  | getCopy _ | getClear _ | draw => true
  | _ => false

def State.progress (s : State) : ℕ := 10 * s.drawn.length + s.main.phase

theorem MainPc.phase_lt (pc : MainPc) : pc.phase < 10 := by
  cases pc with
  | getRead i =>
      show (if i.val = 0 then 6 else 5) < 10
      split
      · exact Nat.lt_of_sub_eq_succ rfl
      · exact Nat.lt_of_sub_eq_succ rfl
  | poll | clear | resize | addRead i | addStore i | addSet i | getCopy i | getClear i | draw
  | aborted => simp only [phase, Nat.reduceLT]

section Pace

variable {env : Env} {s : State}

theorem drawn_length_eq (s : State) : s.drawn.length = s.progress / 10 := by
  have hphase := s.main.phase_lt
  unfold State.progress
  omega

theorem mainStep_progress (hc : Control s)
    (hdone : s.main.accepted = true → s.rkndoOk 0 = true) :
    (mainStep env s).progress = s.progress + 1 := by
  unfold State.progress
  cases hpc : s.main with
  | poll =>
      obtain ⟨g, hstep, -⟩ := hc.toMainSide.poll env hpc
      rw [hstep]
      rfl
  | draw =>
      obtain ⟨st, -, -, hstep⟩ := hc.toMainSide.draw env hpc
      rw [hstep]
      show 10 * (s.drawn ++ [_]).length + 0 = 10 * s.drawn.length + 9 + 1
      rw [List.length_append, List.length_singleton]
      omega
  | resize =>
      unfold mainStep
      simp only [hpc]
      split <;> rfl
  | addRead i =>
      have hi : i = 0 := hc.main_at hpc
      subst hi
      have hfree := hc.slot_free (by rw [hpc]; rfl)
      simp [mainStep, hpc, hfree, MainPc.phase]
  | getRead i =>
      have hset := hdone (by rw [hpc]; rfl)
      by_cases hi : i = 0
      · subst hi
        simp [mainStep, hpc, hset, MainPc.phase]
      · obtain rfl : i = 1 := by omega
        simp [mainStep, hpc, hc.rkndoOk_one, otherSlot, MainPc.phase]
  | clear | addStore i | addSet i | getCopy i | getClear i =>
      simp [mainStep, hpc, MainPc.phase]
  | aborted => exact absurd (hc.main_at hpc) id

theorem threadStep_progress (env : Env) (s : State) :
    (threadStep env s).progress = s.progress := by
  have hk := threadKeeps env s
  rw [State.progress, hk.drawn_eq, hk.main_eq]
  rfl

theorem threadStep_rkndoOk (env : Env) (h : s.rkndoOk 0 = true) :
    (threadStep env s).rkndoOk 0 = true := by
  cases hpc : s.thread with
  | setDo i =>
      simp only [threadStep, hpc, Function.update_apply, h, ite_self]
  | scan i | check | copy i =>
      unfold threadStep
      simp only [hpc]
      split <;> exact h
  | infer i | clearResize i | crashed =>
      unfold threadStep
      simp only [hpc]
      exact h

theorem step_rkndoOk (env : Env) (h : s.rkndoOk 0 = true) (p : Proc) :
    (step env s p).rkndoOk 0 = true := by
  cases p with
  | main => exact (congrFun (mainKeeps env s).rkndoOk_eq 0).trans h
  | thread => exact threadStep_rkndoOk env h

theorem run_progress (hc : Control s) (h : s.rkndoOk 0 = true) (rest : List Proc) :
    (run (step env) s rest).progress = s.progress + rest.count .main := by
  induction rest using List.reverseRecOn with
  | nil => rfl
  | append_singleton rest p ih =>
      have hcontrol : Control (run (step env) s rest) :=
        run_invariant hc (fun _ p h => h.step p) rest
      have hdone := run_invariant (I := fun s : State => s.rkndoOk 0 = true) h
        (fun _ p h => step_rkndoOk env h p) rest
      rw [run_append_singleton, List.count_append]
      cases p with
      | main =>
          rw [step, mainStep_progress hcontrol fun _ => hdone, ih]
          rfl
      | thread =>
          rw [step, threadStep_progress, ih]
          rfl

end Pace

/-! ## The first round of `rknn_thread` -/

def ThreadPc.inferred : ThreadPc → Bool
  | clearResize _ | setDo _ => true
  | _ => false

def ThreadPc.looking : ThreadPc → Bool
  | scan _ | check => true
  | _ => false

/-- Before the first result `main` does not get past `rkn_result_get`; before the first
image is found nothing is inferred, and the image that was offered stays on offer. -/
structure FirstRound (s : State) : Prop where
  unserved : s.rkndoOk 0 = false → s.frame = 0 ∧ s.main.served = false
  unraised : s.rkndoOk 0 = false → s.inferences = if s.thread.inferred then 1 else 0
  unseen : s.idx = none → s.rkndoOk 0 = false ∧ s.thread.looking = true ∧
    (s.main.accepted = true → s.resizeOk 0 = true)

theorem firstRound_init : FirstRound .init where
  unserved := fun _ => ⟨rfl, rfl⟩
  unraised := fun _ => rfl
  unseen := fun _ => ⟨rfl, rfl, fun h => absurd h Bool.false_ne_true⟩

section FirstRound

variable {env : Env} {s : State}

variable (env) in
theorem mainStep_unserved (hc : Control s) (hdone : s.rkndoOk 0 = false)
    (hserved : s.main.served = false) :
    (mainStep env s).frame = s.frame ∧ (mainStep env s).main.served = false ∧
      ((mainStep env s).main.accepted = true →
        s.main = .addSet 0 ∨
          (s.main.accepted = true ∧ (mainStep env s).resizeOk = s.resizeOk)) := by
  cases hpc : s.main with
  | poll =>
      obtain ⟨g, hstep, -⟩ := hc.toMainSide.poll env hpc
      rw [hstep]
      exact ⟨rfl, rfl, fun h => absurd h Bool.false_ne_true⟩
  | resize =>
      unfold mainStep
      simp only [hpc]
      split <;> exact ⟨rfl, rfl, fun h => absurd h Bool.false_ne_true⟩
  | addRead i =>
      have hi : i = 0 := hc.main_at hpc
      subst hi
      have hfree := hc.slot_free (by rw [hpc]; rfl)
      simp [mainStep, hpc, hfree, MainPc.served, MainPc.accepted]
  | addSet i =>
      have hi : i = 0 := hc.main_at hpc
      subst hi
      simp [mainStep, hpc, MainPc.served]
  | getRead i =>
      have hnone : s.rkndoOk i = false := by
        by_cases hi : i = 0
        · rw [hi]
          exact hdone
        · obtain rfl : i = 1 := by omega
          exact hc.rkndoOk_one
      simp [mainStep, hpc, hnone, MainPc.served, MainPc.accepted]
  | clear | addStore i =>
      simp [mainStep, hpc, MainPc.served, MainPc.accepted]
  | getCopy i | getClear i | draw =>
      rw [hpc] at hserved
      exact absurd hserved (by simp [MainPc.served])
  | aborted => exact absurd (hc.main_at hpc) id

theorem FirstRound.mainStep (h : FirstRound s) (hc : Control s) :
    FirstRound (mainStep env s) := by
  have hk := mainKeeps env s
  constructor
  · intro hdone
    rw [hk.rkndoOk_eq] at hdone
    obtain ⟨hframe, hserved⟩ := h.unserved hdone
    obtain ⟨hframe', hserved', -⟩ := mainStep_unserved env hc hdone hserved
    exact ⟨hframe'.trans hframe, hserved'⟩
  · rw [hk.rkndoOk_eq, hk.inferences_eq, hk.thread_eq]
    exact h.unraised
  · rw [hk.idx_eq, hk.rkndoOk_eq, hk.thread_eq]
    intro hidx
    obtain ⟨hdone, hlooking, hoffer⟩ := h.unseen hidx
    refine ⟨hdone, hlooking, ?_⟩
    intro haccepted
    obtain ⟨-, hserved⟩ := h.unserved hdone
    rcases (mainStep_unserved env hc hdone hserved).2.2 haccepted with hpc | ⟨hold, hok⟩
    · simp [Pipeline.mainStep, hpc]
    · rw [hok]
      exact hoffer hold

theorem FirstRound.threadStep (h : FirstRound s) (hc : Control s) :
    FirstRound (threadStep env s) := by
  have hk := threadKeeps env s
  have hdone_of : (Pipeline.threadStep env s).rkndoOk 0 = false → s.rkndoOk 0 = false := by
    intro hdone
    by_contra hset
    have hstill := threadStep_rkndoOk env (Bool.not_eq_false _ ▸ hset)
    exact absurd (hstill.symm.trans hdone) (by simp)
  constructor
  · intro hdone
    rw [hk.frame_eq, hk.main_eq]
    exact h.unserved (hdone_of hdone)
  · intro hdone
    have hcount := h.unraised (hdone_of hdone)
    cases hpc : s.thread with
    | setDo i =>
        have hi : i = 0 := hc.thread_at hpc
        subst hi
        simp [Pipeline.threadStep, hpc] at hdone
    | scan i =>
        rw [hpc] at hcount
        unfold Pipeline.threadStep
        simp only [hpc]
        split
        · exact hcount
        · by_cases hi : i = 0
          · rw [if_pos hi]
            exact hcount
          · rw [if_neg hi]
            exact hcount
    | check | copy i =>
        rw [hpc] at hcount
        unfold Pipeline.threadStep
        simp only [hpc]
        split <;> exact hcount
    | infer i =>
        rw [hpc] at hcount
        simp only [Pipeline.threadStep, hpc]
        exact congrArg (· + 1) hcount
    | clearResize i | crashed =>
        rw [hpc] at hcount
        simp only [Pipeline.threadStep, hpc]
        exact hcount
  · cases hpc : s.thread with
    | scan i =>
        unfold Pipeline.threadStep
        simp only [hpc]
        split
        · exact fun hidx => absurd hidx (by simp)
        · intro hidx
          obtain ⟨hdone, -, hoffer⟩ := h.unseen hidx
          refine ⟨hdone, ?_, hoffer⟩
          show ThreadPc.looking (if i = 0 then .scan 1 else .check) = true
          split <;> rfl
    | check =>
        unfold Pipeline.threadStep
        simp only [hpc]
        split
        · rename_i i hidx
          intro hnone
          exact absurd (hidx.symm.trans hnone) (by simp)
        · intro hidx
          obtain ⟨hdone, -, hoffer⟩ := h.unseen hidx
          exact ⟨hdone, rfl, hoffer⟩
    | copy i | infer i | clearResize i | setDo i | crashed =>
        intro hidx
        have hidx' : s.idx = none := by
          rcases threadStep_idx env s with hsame | ⟨j, -, hj⟩
          · exact hsame ▸ hidx
          · exact absurd (hj.symm.trans hidx) (by simp)
        have hlooking := (h.unseen hidx').2.1
        rw [hpc] at hlooking
        exact absurd hlooking (by simp [ThreadPc.looking])

theorem firstRound_after (env : Env) (schedule : List Proc) :
    FirstRound (after env schedule) :=
  (run_invariant (I := fun s => Control s ∧ FirstRound s) ⟨control_init, firstRound_init⟩
    (fun _ p h => ⟨h.1.step p, match p with
      | .main => h.2.mainStep h.1
      | .thread => h.2.threadStep h.1⟩) schedule).2

end FirstRound

/-- **`main` waits only once.**  As long as no result is there nothing is drawn.  Once one is
there, the number of lists drawn follows from the number of steps `main` has taken, ten for
each round, however `rknn_thread` is scheduled meanwhile. -/
theorem main_waits_only_once (env : Env) (schedule rest : List Proc) :
    ((after env schedule).rkndoOk 0 = false → (after env schedule).drawn = []) ∧
      ((after env schedule).rkndoOk 0 = true →
        (after env (schedule ++ rest)).drawn.length =
          ((after env schedule).progress + rest.count .main) / 10) := by
  constructor
  · intro hdone
    have hframe := ((firstRound_after env schedule).unserved hdone).1
    apply List.eq_nil_of_length_eq_zero
    rw [(book_after env schedule).drawn_length, hframe]
  · intro hdone
    rw [after_append, drawn_length_eq, run_progress (control_after env schedule) hdone]

/-! ## Fair runs -/

def State.toInfer (s : State) : ℕ :=
  match s.thread, s.idx with
  | .infer _, _ | .crashed, _ => 0
  | .copy _, _ => 1
  | .check, some _ => 2
  | .scan i, some _ => if i.val = 0 then 4 else 3
  | .scan i, none => if i.val = 0 then 4 else 6
  | .check, none => 5
  | .setDo _, _ => 5
  | .clearResize _, _ => 6

structure Going (env : Env) (s : State) : Prop where
  control : Control s
  book : Book s
  views : Views env s
  firstRound : FirstRound s
  running : s.thread ≠ .crashed

section Going

variable {env : Env} {s : State}

theorem going_init (env : Env) : Going env .init :=
  ⟨control_init, book_init, views_init env, firstRound_init, by simp [State.init]⟩

theorem Going.image (h : Going env s) (himport : ∀ k, env.rga k ≠ .importFailed) {i : Fin 2}
    (hpc : s.thread = .copy i) :
    ∃ p, (s.resizeImages i).image.pixels s.dstBuf = some p := by
  have hfits := (copyFits_iff h.control h.book h.views .thread).mpr fun _ _ k _ _ => himport k
  have hne := (hfits rfl i hpc).2.1
  cases hmat : (s.resizeImages i).image with
  | empty => exact absurd hmat hne
  | view => exact ⟨_, rfl⟩
  | own p => exact ⟨p, rfl⟩

theorem Going.threadStep_toInfer (h : Going env s) (himport : ∀ k, env.rga k ≠ .importFailed)
    (hoffer : s.idx = none → s.main.accepted = true) :
    s.inferences < (threadStep env s).inferences ∨ (threadStep env s).toInfer < s.toInfer := by
  have hc := h.control
  cases hpc : s.thread with
  | infer i =>
      left
      simp only [threadStep, hpc]
      exact Nat.lt_succ_self _
  | scan i =>
      right
      by_cases hset : s.resizeOk i = true
      · obtain rfl : i = 0 := hc.slot_of_set hset
        have hbefore : s.toInfer = 4 := by
          unfold State.toInfer
          rw [hpc]
          cases s.idx <;> rfl
        rw [hbefore]
        simp [threadStep, hpc, hset, State.toInfer]
      · cases hidx : s.idx with
        | none =>
            have hoffered := (h.firstRound.unseen hidx).2.2 (hoffer hidx)
            have hi : i ≠ 0 := fun hi => hset (hi ▸ hoffered)
            simp [threadStep, hpc, hset, hidx, hi, State.toInfer]
        | some j =>
            by_cases hi : i = 0
            · subst hi
              simp [threadStep, hpc, hset, hidx, State.toInfer]
            · simp [threadStep, hpc, hset, hidx, hi, State.toInfer]
  | check =>
      right
      cases hidx : s.idx with
      | none => simp [threadStep, hpc, hidx, State.toInfer]
      | some j => simp [threadStep, hpc, hidx, State.toInfer]
  | copy i =>
      right
      obtain ⟨p, hp⟩ := h.image himport hpc
      simp [threadStep, hpc, hp, State.toInfer]
  | clearResize i =>
      right
      simp [threadStep, hpc, State.toInfer]
  | setDo i =>
      right
      cases hidx : s.idx with
      | none =>
          have hlooking := (h.firstRound.unseen hidx).2.1
          rw [hpc] at hlooking
          exact absurd hlooking (by simp [ThreadPc.looking])
      | some j => simp [threadStep, hpc, hidx, State.toInfer]
  | crashed => exact absurd hpc h.running

theorem Going.step (h : Going env s) (himport : ∀ k, env.rga k ≠ .importFailed) (p : Proc) :
    Going env (step env s p) := by
  obtain ⟨⟨hc, hb⟩, hv⟩ := Views.step ⟨⟨h.control, h.book⟩, h.views⟩ p
  cases p with
  | main =>
      refine ⟨hc, hb, hv, h.firstRound.mainStep h.control, ?_⟩
      rw [Pipeline.step, (mainKeeps env s).thread_eq]
      exact h.running
  | thread =>
      refine ⟨hc, hb, hv, h.firstRound.threadStep h.control, ?_⟩
      show (threadStep env s).thread ≠ .crashed
      cases hpc : s.thread with
      | copy i =>
          obtain ⟨p, hp⟩ := h.image himport hpc
          simp [threadStep, hpc, hp]
      | scan i =>
          unfold threadStep
          simp only [hpc]
          split
          · simp
          · split <;> simp
      | check =>
          unfold threadStep
          simp only [hpc]
          split <;> simp
      | infer i | clearResize i | setDo i => simp [threadStep, hpc]
      | crashed => exact absurd hpc h.running

theorem step_inferences_le (env : Env) (s : State) (p : Proc) :
    s.inferences ≤ (step env s p).inferences := by
  cases p with
  | main => exact (mainKeeps env s).inferences_eq.ge
  | thread =>
      show s.inferences ≤ (threadStep env s).inferences
      cases hpc : s.thread with
      | infer i =>
          simp only [threadStep, hpc]
          exact Nat.le_succ _
      | scan i | check | copy i =>
          unfold threadStep
          simp only [hpc]
          split <;> exact Nat.le_refl _
      | clearResize i | setDo i | crashed => simp [threadStep, hpc]

structure Offered (env : Env) (s : State) : Prop extends Going env s where
  offered : s.idx = none → s.main.accepted = true

theorem Offered.step (h : Offered env s) (himport : ∀ k, env.rga k ≠ .importFailed) (p : Proc) :
    Offered env (step env s p) := by
  refine ⟨h.toGoing.step himport p, ?_⟩
  cases p with
  | main =>
      show (mainStep env s).idx = none → (mainStep env s).main.accepted = true
      rw [(mainKeeps env s).idx_eq]
      intro hidx
      have hdone := (h.firstRound.unseen hidx).1
      have haccepted := h.offered hidx
      have hserved := (h.firstRound.unserved hdone).2
      cases hpc : s.main with
      | getRead i =>
          unfold mainStep
          simp only [hpc]
          split <;> rfl
      | poll | clear | resize | addRead i | addStore i | addSet i | aborted =>
          rw [hpc] at haccepted
          exact absurd haccepted (by simp [MainPc.accepted])
      | getCopy i | getClear i | draw =>
          rw [hpc] at hserved
          exact absurd hserved (by simp [MainPc.served])
  | thread =>
      show (threadStep env s).idx = none → (threadStep env s).main.accepted = true
      rw [(threadKeeps env s).main_eq]
      intro hidx
      apply h.offered
      rcases threadStep_idx env s with hsame | ⟨j, -, hj⟩
      · exact hsame ▸ hidx
      · exact absurd (hj.symm.trans hidx) (by simp)

end Going

section Fair

variable {env : Env} {sched : ℕ → Proc} {n : ℕ}

theorem going_after (himport : ∀ k, env.rga k ≠ .importFailed) (n : ℕ) :
    Going env (after env (firstSteps sched n)) :=
  run_invariant (going_init env) (fun _ p h => Going.step h himport p) _

theorem eventually_offered (himport : ∀ k, env.rga k ≠ .importFailed) (hfair : Fair sched) :
    ∃ m, Offered env (after env (firstSteps sched m)) := by
  have hpace : ∀ s : State, Going env s → ¬ s.main.accepted = true →
      (mainStep env s).main.phase = s.main.phase + 1 := by
    intro s hs hbefore
    have hprogress : (mainStep env s).progress = s.progress + 1 :=
      mainStep_progress hs.control fun h => absurd h hbefore
    have hdraw : s.main ≠ .draw := by
      intro hpc
      rw [hpc] at hbefore
      exact hbefore rfl
    unfold State.progress at hprogress
    rw [mainStep_drawn hdraw] at hprogress
    omega
  have hrule := eventually_of_variant (Going env) (fun s => s.main.accepted = true)
    (fun s => 10 - s.main.phase) .main hfair ?_ ?_ (going_after himport 0)
  · obtain ⟨m, -, hm⟩ := hrule
    exact ⟨m, going_after himport m, fun _ => hm⟩
  · intro s p hs hbefore
    refine ⟨hs.step himport p, fun _ => ?_⟩
    cases p with
    | main =>
        have hphase := hpace s hs hbefore
        rw [step, hphase]
        omega
    | thread => rw [step, (threadKeeps env s).main_eq]
  · intro s hs hbefore
    right
    have hphase := hpace s hs hbefore
    have hlt := s.main.phase_lt
    show 10 - (mainStep env s).main.phase < 10 - s.main.phase
    omega

theorem offered_from (himport : ∀ k, env.rga k ≠ .importFailed) {m : ℕ}
    (hn : Offered env (after env (firstSteps sched n))) (hnm : n ≤ m) :
    Offered env (after env (firstSteps sched m)) :=
  kept_from (fun _ p h => h.step himport p) hn hnm

theorem inferences_exceeded (himport : ∀ k, env.rga k ≠ .importFailed) (hfair : Fair sched)
    (hn : Offered env (after env (firstSteps sched n))) :
    ∃ m, n ≤ m ∧ (after env (firstSteps sched n)).inferences <
      (after env (firstSteps sched m)).inferences := by
  set count := (after env (firstSteps sched n)).inferences
  apply eventually_of_variant (fun s => Offered env s ∧ count ≤ s.inferences)
    (fun s => count < s.inferences) State.toInfer .thread hfair
  · rintro s p ⟨hs, hcount⟩ hequal
    have hoffered := hs.step himport p
    cases p with
    | main =>
        have hk := mainKeeps env s
        refine ⟨⟨hoffered, ?_⟩, fun _ => ?_⟩
        · show count ≤ (mainStep env s).inferences
          rw [hk.inferences_eq]
          exact hcount
        · show (mainStep env s).toInfer ≤ s.toInfer
          unfold State.toInfer
          rw [hk.thread_eq, hk.idx_eq]
    | thread =>
        refine ⟨⟨hoffered, hcount.trans (step_inferences_le env s .thread)⟩, fun hstill => ?_⟩
        rcases hs.threadStep_toInfer himport hs.offered with hmore | hnearer
        · exact absurd (lt_of_le_of_lt hcount hmore) hstill
        · exact hnearer.le
  · rintro s ⟨hs, hcount⟩ hequal
    rcases hs.threadStep_toInfer himport hs.offered with hmore | hnearer
    · left
      exact lt_of_le_of_lt hcount hmore
    · exact .inr hnearer
  · exact ⟨hn, Nat.le_refl count⟩

theorem inferences_unbounded (himport : ∀ k, env.rga k ≠ .importFailed) (hfair : Fair sched)
    (bound : ℕ) : ∃ m, bound ≤ (after env (firstSteps sched m)).inferences := by
  obtain ⟨n, hn⟩ := eventually_offered himport hfair
  have hexceed : ∀ m, n ≤ m → ∃ k, m ≤ k ∧ (after env (firstSteps sched m)).inferences <
      (after env (firstSteps sched k)).inferences :=
    fun m hm => inferences_exceeded himport hfair (offered_from himport hn hm)
  obtain ⟨m, -, hm⟩ := unbounded_of_exceeded State.inferences hexceed bound
  exact ⟨m, hm⟩

theorem eventually_done (himport : ∀ k, env.rga k ≠ .importFailed) (hfair : Fair sched) :
    ∃ m, (after env (firstSteps sched m)).rkndoOk 0 = true := by
  obtain ⟨m, hm⟩ := inferences_unbounded himport hfair 2
  refine ⟨m, ?_⟩
  by_contra hdone
  have hcount := (firstRound_after env (firstSteps sched m)).unraised (eq_false_of_ne_true hdone)
  split at hcount
  · omega
  · omega

theorem progress_exceeded (hfair : Fair sched)
    (hn : (after env (firstSteps sched n)).rkndoOk 0 = true) :
    ∃ m, n ≤ m ∧ (after env (firstSteps sched n)).progress <
      (after env (firstSteps sched m)).progress := by
  set count := (after env (firstSteps sched n)).progress
  have hstep : ∀ (s : State) p, (Control s ∧ s.rkndoOk 0 = true) ∧ count ≤ s.progress →
      (Control (step env s p) ∧ (step env s p).rkndoOk 0 = true) ∧
        count ≤ (step env s p).progress := by
    rintro s p ⟨⟨hc, hdone⟩, hcount⟩
    refine ⟨⟨hc.step p, step_rkndoOk env hdone p⟩, ?_⟩
    cases p with
    | main =>
        rw [step, mainStep_progress hc fun _ => hdone]
        omega
    | thread =>
        rw [step, threadStep_progress]
        exact hcount
  apply eventually_of_variant
    (fun s => (Control s ∧ s.rkndoOk 0 = true) ∧ count ≤ s.progress)
    (fun s => count < s.progress) (fun _ => 0) .main hfair
  · exact fun s p hs _ => ⟨hstep s p hs, fun _ => Nat.le_refl 0⟩
  · rintro s ⟨⟨hc, hdone⟩, hcount⟩ -
    left
    rw [step, mainStep_progress hc fun _ => hdone]
    omega
  · exact ⟨⟨control_after env _, hn⟩, Nat.le_refl count⟩

theorem drawn_unbounded (himport : ∀ k, env.rga k ≠ .importFailed) (hfair : Fair sched)
    (bound : ℕ) : ∃ m, bound ≤ (after env (firstSteps sched m)).drawn.length := by
  obtain ⟨n, hn⟩ := eventually_done himport hfair
  have hexceed : ∀ m, n ≤ m → ∃ k, m ≤ k ∧ (after env (firstSteps sched m)).progress <
      (after env (firstSteps sched k)).progress := by
    intro m hm
    exact progress_exceeded hfair (kept_from (I := fun s : State => s.rkndoOk 0 = true)
      (fun _ p h => step_rkndoOk env h p) hn hm)
  obtain ⟨m, -, hm⟩ := unbounded_of_exceeded State.progress hexceed (10 * bound)
  refine ⟨m, ?_⟩
  rw [drawn_length_eq, Nat.le_div_iff_mul_le (by decide), Nat.mul_comm]
  exact hm

/-- **Neither loop comes to a halt.**  If the RGA always imports its buffers, then in every
fair run `main` draws, and `rknn_thread` infers, more often than any number of times, and
`rknn_thread` never reads an image without data. -/
theorem fair_run_goes_on (env : Env) (himport : ∀ k, env.rga k ≠ .importFailed)
    (sched : ℕ → Proc) (hfair : Fair sched) (bound : ℕ) :
    (∃ m, bound ≤ (after env (firstSteps sched m)).drawn.length) ∧
      (∃ m, bound ≤ (after env (firstSteps sched m)).inferences) ∧
      ∀ m, (after env (firstSteps sched m)).thread ≠ .crashed :=
  ⟨drawn_unbounded himport hfair bound, inferences_unbounded himport hfair bound,
    fun m => (going_after himport m).running⟩

end Fair

def inTurn (n : ℕ) : Proc := if n % 2 = 0 then .main else .thread

theorem fair_inTurn : Fair inTurn := by
  intro p n
  cases p with
  | main => exact ⟨2 * n, by omega, by simp [inTurn]⟩
  | thread =>
      refine ⟨2 * n + 1, by omega, ?_⟩
      have hodd : (2 * n + 1) % 2 = 1 := by omega
      simp [inTurn, hodd]

theorem fair_run_goes_on_inTurn :
    (∃ m, 5 ≤ (after quietEnv (firstSteps inTurn m)).drawn.length) ∧
      (∃ m, 5 ≤ (after quietEnv (firstSteps inTurn m)).inferences) ∧
      ∀ m, (after quietEnv (firstSteps inTurn m)).thread ≠ .crashed :=
  fair_run_goes_on quietEnv (fun _ => by simp [quietEnv]) inTurn fair_inTurn 5

end CatDect.Pipeline
