import CatDect.Pipeline.ImageSize
import CatDect.Pipeline.Ownership

/-!
# The hand-shake the flags were meant for

No flag makes `main` wait for `rknn_thread` after the first frame, or `rknn_thread` for `main`.
In the runs in which they wait for each other all the same, the queue, `dst_buf` and the result
slot are safe.  What has to be waited for is stated by the order of the copies, announcements
and acceptances of a run, and each safety property follows from its own part of it.
-/

namespace CatDect.Pipeline

open CatDect.Support CatDect.ImageHandle

/-- An observer: since `rkn_queue_add` returned 0 last, `rknn_thread` has copied an image, and
has announced the result of a round that began with such a copy. -/
structure Handshake where
  copied : Bool
  answered : Bool

def Handshake.none : Handshake := ⟨false, false⟩

def Handshake.next (s : State) (p : Proc) (m : Handshake) : Handshake :=
  match p with
  | .main =>
      match s.main with
      | .addSet _ => .none
      | _ => m
  | .thread =>
      match s.thread with
      | .copy i => { m with copied := m.copied || decide ((s.resizeImages i).image ≠ .empty) }
      | .setDo _ => { m with answered := m.copied }
      | _ => m

def Fetches (s : State) (p : Proc) : Prop :=
  p = .main ∧ ∃ i, s.main = .getRead i ∧ s.rkndoOk i = true

/-- `rkn_result_get` finds `rkndo_ok` set only after `rknn_thread` has copied an image since the
last acceptance, if the frame in work is one of `P`. -/
def FetchesAfterCopy (P : ℕ → Prop) (w : State × Handshake) (p : Proc) : Prop :=
  Fetches w.1 p → P w.1.frame → w.2.copied = true

instance (s : State) (p : Proc) : Decidable (Fetches s p) := inferInstanceAs (Decidable (_ ∧ _))

instance (P : ℕ → Prop) [DecidablePred P] (w : State × Handshake) (p : Proc) :
    Decidable (FetchesAfterCopy P w p) := inferInstanceAs (Decidable (_ → _))

/-- `rkn_queue_add` accepts no frame while `rknn_thread` is between its copy and its store of 0
in `resize_ok`. -/
def AcceptsOutsideRound (s : State) (p : Proc) : Prop :=
  p = .main → ∀ i, s.main = .addSet i → ∀ j, s.thread ≠ .infer j ∧ s.thread ≠ .clearResize j

instance (s : State) (p : Proc) : Decidable (AcceptsOutsideRound s p) :=
  inferInstanceAs (Decidable (_ → _))

/-! ## The frame accepted last -/

/-- From the moment `rkndo_ok` was found set until `letterbox` clears `dst_buf`. -/
def MainPc.afterFetch : MainPc → Bool
  | getCopy _ | getClear _ | draw | poll | clear => true
  | _ => false

section LastCopied

variable {env : Env} {s : State}

theorem mainStep_accepted (hpc : ∀ i, s.main ≠ .addSet i) :
    (mainStep env s).accepted = s.accepted := by
  cases hmain : s.main with
  | addSet i => exact absurd hmain (hpc i)
  | poll | resize | draw =>
      unfold mainStep
      simp only [hmain]
      split <;> rfl
  | clear | addRead i | addStore i | getRead i | getCopy i | getClear i | aborted =>
      unfold mainStep
      simp only [hmain]

theorem taken_prefix_threadStep (env : Env) (s : State) :
    s.taken.IsPrefix (threadStep env s).taken := by
  cases hthread : s.thread with
  | copy i =>
      unfold threadStep
      simp only [hthread]
      split
      · exact List.prefix_append _ _
      · exact List.prefix_refl _
  | scan i | check =>
      unfold threadStep
      simp only [hthread]
      split <;> exact List.prefix_refl _
  | infer i | clearResize i | setDo i | crashed =>
      unfold threadStep
      simp only [hthread]
      exact List.prefix_refl _

theorem State.Copied.threadStep {k : ℕ} (h : s.Copied k) : (threadStep env s).Copied k := by
  obtain ⟨t, ht, hk⟩ := h
  exact ⟨t, (taken_prefix_threadStep env s).subset ht, hk⟩

theorem State.Copied.mainStep {k : ℕ} (h : s.Copied k) : (mainStep env s).Copied k := by
  unfold State.Copied
  rw [(mainKeeps env s).taken_eq]
  exact h

theorem State.LastCopied.mainStep (h : s.LastCopied) (hpc : ∀ i, s.main ≠ .addSet i) :
    (mainStep env s).LastCopied := by
  intro a ha
  rw [mainStep_accepted hpc] at ha
  exact (h a ha).mainStep

theorem State.LastCopied.threadStep (h : s.LastCopied) : (threadStep env s).LastCopied := by
  intro a ha
  rw [(threadKeeps env s).accepted_eq] at ha
  exact (h a ha).threadStep

theorem Book.slot_frame_last (h : Book s) (hpc : ∀ i, s.main ≠ .addSet i) {a : ℕ × Fin 2}
    (ha : s.accepted.getLast? = some a) : (s.resizeImages 0).frame = some a.1 := by
  have hslot := h.slot_frame
  by_cases hacc : s.main.accepted = true
  · rw [h.last_of_accepted hacc, Option.some_inj] at ha
    have hstored : s.main.stored = true := by
      revert hacc
      cases s.main <;> simp [MainPc.accepted, MainPc.stored]
    rw [hslot, if_pos hstored, ← ha]
  · have hstored : s.main.stored = false := by
      revert hacc hpc
      cases s.main <;> simp [MainPc.accepted, MainPc.stored]
    have hframe : s.frame ≠ 0 := by
      intro hzero
      rw [h.accepted_eq, if_neg hacc, hzero] at ha
      exact absurd ha (by simp)
    rw [h.last_of_not_accepted (Bool.not_eq_true _ ▸ hacc) hframe, Option.some_inj] at ha
    rw [hslot, hstored, if_neg (by simp), if_neg hframe, ← ha]

theorem Book.lastCopied_of_copy (h : Book s) (hpc : ∀ i, s.main ≠ .addSet i)
    (hthread : s.thread = .copy 0) (himage : (s.resizeImages 0).image ≠ .empty) :
    (Pipeline.threadStep env s).LastCopied := by
  intro a ha
  rw [(threadKeeps env s).accepted_eq] at ha
  have hslot := h.slot_frame_last hpc ha
  have htaken : ∃ p, (Pipeline.threadStep env s).taken =
      s.taken ++ [⟨(s.resizeImages 0).frame, p⟩] := by
    cases hmat : (s.resizeImages 0).image with
    | empty => exact absurd hmat himage
    | view | own p =>
        simp only [Pipeline.threadStep, hthread, hmat, Mat.pixels]
        exact ⟨_, rfl⟩
  obtain ⟨p, hp⟩ := htaken
  refine ⟨⟨(s.resizeImages 0).frame, p⟩, ?_, hslot⟩
  rw [hp]
  exact List.mem_append_right _ List.mem_cons_self

theorem mainStep_afterFetch (h : (mainStep env s).main.afterFetch = true) :
    (s.main.afterFetch = true ∧ ∀ i, s.main ≠ .addSet i) ∨ Fetches s .main := by
  cases hmain : s.main with
  | getRead i =>
      unfold mainStep at h
      simp only [hmain] at h
      split at h
      · rename_i hdone
        exact .inr ⟨rfl, i, hmain, hdone⟩
      · exact absurd h (by simp [MainPc.afterFetch])
  | addRead i =>
      unfold mainStep at h
      simp only [hmain] at h
      split at h
      · exact absurd h (by simp [MainPc.afterFetch])
      · exact absurd h (by simp [MainPc.afterFetch])
  | resize =>
      unfold mainStep at h
      simp only [hmain] at h
      split at h
      · exact absurd h (by simp [MainPc.afterFetch])
      · exact absurd h (by simp [MainPc.afterFetch])
      · exact absurd h (by simp [MainPc.afterFetch])
  | addStore i | addSet i | aborted =>
      unfold mainStep at h
      simp [hmain, MainPc.afterFetch] at h
  | poll | clear | getCopy i | getClear i | draw =>
      exact .inl ⟨rfl, by simp⟩

theorem threadStep_infer {i : Fin 2} (h : (threadStep env s).thread = .infer i) :
    s.thread = .copy i ∧ (s.resizeImages i).image ≠ .empty := by
  cases hthread : s.thread with
  | copy j =>
      cases hmat : (s.resizeImages j).image with
      | empty => simp [threadStep, hthread, hmat, Mat.pixels] at h
      | view | own p =>
          simp only [threadStep, hthread, hmat, Mat.pixels, ThreadPc.infer.injEq] at h
          rw [← h, hmat]
          exact ⟨rfl, by simp⟩
  | scan j =>
      unfold threadStep at h
      simp only [hthread] at h
      split at h
      · exact absurd h (by simp)
      · exact absurd h (by dsimp only; split <;> simp)
  | check =>
      unfold threadStep at h
      simp only [hthread] at h
      split at h <;> exact absurd h (by simp)
  | infer j | clearResize j | setDo j | crashed =>
      simp [threadStep, hthread] at h

theorem threadStep_clearResize {i : Fin 2} (h : (threadStep env s).thread = .clearResize i) :
    s.thread = .infer i := by
  cases hthread : s.thread with
  | infer j =>
      simp only [threadStep, hthread, ThreadPc.clearResize.injEq] at h
      rw [h]
  | scan j =>
      unfold threadStep at h
      simp only [hthread] at h
      split at h
      · exact absurd h (by simp)
      · exact absurd h (by dsimp only; split <;> simp)
  | check | copy j =>
      unfold threadStep at h
      simp only [hthread] at h
      split at h <;> exact absurd h (by simp)
  | clearResize j | setDo j | crashed =>
      simp [threadStep, hthread] at h

end LastCopied

/-! ## Waiting for the copy -/

structure Awaited (P : ℕ → Prop) (s : State) (m : Handshake) : Prop where
  copied : m.copied = true → (∀ i, s.main ≠ .addSet i) → s.LastCopied
  served : s.main.afterFetch = true → ∀ a, s.accepted.getLast? = some a → P a.1 → s.Copied a.1

theorem awaited_init (P : ℕ → Prop) : Awaited P .init .none where
  copied := fun h => absurd h (by simp [Handshake.none])
  served := fun _ a ha => absurd ha (by simp [State.init])

section Awaited

variable {env : Env} {P : ℕ → Prop} {s : State} {m : Handshake}

theorem Awaited.mainStep (h : Awaited P s m) (hb : Book s)
    (hfetch : FetchesAfterCopy P (s, m) .main) :
    Awaited P (mainStep env s) (m.next s .main) := by
  by_cases hset : ∃ i, s.main = .addSet i
  · obtain ⟨i, hpc⟩ := hset
    simp only [Handshake.next, hpc, Pipeline.mainStep]
    exact ⟨fun hcopied => absurd hcopied (by simp [Handshake.none]),
      fun hserved => absurd hserved (by simp [MainPc.afterFetch])⟩
  · have hpc : ∀ i, s.main ≠ .addSet i := fun i hi => hset ⟨i, hi⟩
    have hnext : m.next s .main = m := by
      cases hmain : s.main with
      | addSet i => exact absurd hmain (hpc i)
      | poll | clear | resize | addRead i | addStore i | getRead i | getCopy i | getClear i
      | draw | aborted => simp only [Handshake.next, hmain]
    rw [hnext]
    refine ⟨fun hcopied _ => (h.copied hcopied hpc).mainStep hpc, ?_⟩
    intro hserved a ha hP
    rw [mainStep_accepted hpc] at ha
    rcases mainStep_afterFetch hserved with ⟨hstill, -⟩ | hfound
    · exact (h.served hstill a ha hP).mainStep
    · obtain ⟨i, hread, -⟩ := hfound.2
      have hlast := hb.last_of_accepted (by rw [hread]; rfl)
      have hframe : a.1 = s.frame := by
        rw [← Option.some.inj (hlast.symm.trans ha)]
      have hcopied := hfetch hfound (hframe ▸ hP)
      exact (h.copied hcopied hpc a ha).mainStep

theorem Awaited.threadStep (h : Awaited P s m) (hc : Control s) (hb : Book s) :
    Awaited P (threadStep env s) (m.next s .thread) := by
  have hk := threadKeeps env s
  have hserved : (Pipeline.threadStep env s).main.afterFetch = true → ∀ a,
      (Pipeline.threadStep env s).accepted.getLast? = some a → P a.1 →
        (Pipeline.threadStep env s).Copied a.1 := by
    rw [hk.main_eq, hk.accepted_eq]
    exact fun hserved a ha hP => (h.served hserved a ha hP).threadStep
  refine ⟨?_, hserved⟩
  rw [hk.main_eq]
  intro hcopied hpc
  by_cases hold : m.copied = true
  · exact (h.copied hold hpc).threadStep
  · cases hthread : s.thread with
    | copy i =>
        have hi : i = 0 := hc.thread_at hthread
        subst hi
        apply hb.lastCopied_of_copy hpc hthread
        intro hempty
        simp only [Handshake.next, hthread, hempty, ne_eq, not_true_eq_false, decide_false,
          Bool.or_false] at hcopied
        exact hold hcopied
    | scan i | check | infer i | clearResize i | setDo i | crashed =>
        simp only [Handshake.next, hthread] at hcopied
        exact absurd hcopied hold

end Awaited

/-! ## No accepted frame is lost -/

/-- `main` waits for the copy of every frame, and `rknn_thread` is left alone in a round. -/
def QueueHandshake (w : State × Handshake) (p : Proc) : Prop :=
  FetchesAfterCopy (fun _ => True) w p ∧ AcceptsOutsideRound w.1 p

instance (w : State × Handshake) (p : Proc) : Decidable (QueueHandshake w p) :=
  inferInstanceAs (Decidable (_ ∧ _))

structure Undisturbed (s : State) (m : Handshake) : Prop extends Awaited (fun _ => True) s m where
  kept : NoFrameLost s
  inRound : (∃ i, s.thread = .infer i ∨ s.thread = .clearResize i) → s.LastCopied

section Undisturbed

variable {env : Env} {s : State} {m : Handshake}

theorem undisturbed_init : Undisturbed .init .none where
  toAwaited := awaited_init _
  kept := noFrameLost_init
  inRound := by
    rintro ⟨i, h | h⟩
    · exact absurd h (by simp [State.init])
    · exact absurd h (by simp [State.init])

theorem Undisturbed.mainStep (h : Undisturbed s m) (hc : Control s) (hb : Book s)
    (hw : QueueHandshake (s, m) .main) :
    Undisturbed (mainStep env s) (m.next s .main) := by
  refine ⟨h.toAwaited.mainStep hb hw.1, ?_, ?_⟩
  · apply (h.kept.mainStep_iff hc hb).mpr
    rintro ⟨i, hclear⟩ a ha
    exact h.served (by rw [hclear]; rfl) a ha trivial
  · rw [(mainKeeps env s).thread_eq]
    rintro ⟨i, hthread⟩
    apply (h.inRound ⟨i, hthread⟩).mainStep
    intro j hset
    obtain ⟨hinfer, hclear⟩ := hw.2 rfl j hset i
    exact hthread.elim hinfer hclear

theorem Undisturbed.lastCopied_of_free (h : Undisturbed s m) (hc : Control s) (hb : Book s)
    (hpc : s.main.waiting = false) : s.LastCopied := by
  apply State.lastCopied_of_not_queued
  intro k i hq
  obtain ⟨rfl, -, -⟩ := hb.accepted_mem hq.1
  exact absurd ((hc.slot_free hpc).symm.trans (h.kept k 0 hq).1) (by simp)

theorem Undisturbed.threadStep (h : Undisturbed s m) (hc : Control s) (hb : Book s) :
    Undisturbed (threadStep env s) (m.next s .thread) := by
  refine ⟨h.toAwaited.threadStep hc hb, ?_, ?_⟩
  · apply (h.kept.threadStep_iff hc hb).mpr
    rintro ⟨i, hclear⟩
    exact h.inRound ⟨i, .inr hclear⟩
  · rintro ⟨i, hinfer | hclear⟩
    · obtain ⟨hthread, himage⟩ := threadStep_infer hinfer
      by_cases hset : ∃ j, s.main = .addSet j
      · obtain ⟨j, hpc⟩ := hset
        exact (h.lastCopied_of_free hc hb (by rw [hpc]; rfl)).threadStep
      · have hi : i = 0 := hc.thread_at hthread
        subst hi
        exact hb.lastCopied_of_copy (fun j hj => hset ⟨j, hj⟩) hthread himage
    · exact (h.inRound ⟨i, .inl (threadStep_clearResize hclear)⟩).threadStep

end Undisturbed

/-- **No frame is lost under the hand-shake.**  In every run in which `rkn_result_get` finds
`rkndo_ok` set only after a copy since the last acceptance, and no frame is accepted between a
copy of `rknn_thread` and its store of 0, every accepted frame stays in its slot with
`resize_ok` set until it has been copied. -/
theorem noFrameLost_of_handshake (env : Env) (schedule : List Proc)
    (hwaits : Along (watch (step env) Handshake.next) (.init, .none) QueueHandshake schedule) :
    Throughout (step env) .init NoFrameLost schedule := by
  rw [← throughout_watch (step env) Handshake.next (P := NoFrameLost) (w := (.init, .none))]
  have hinv := throughout_of_along
    (I := fun w : State × Handshake => (Control w.1 ∧ Book w.1) ∧ Undisturbed w.1 w.2)
    ⟨⟨control_init, book_init⟩, undisturbed_init⟩ ?_ hwaits
  · exact fun start hs => (hinv start hs).2.kept
  · rintro ⟨s, m⟩ p ⟨⟨hc, hb⟩, h⟩ hw
    refine ⟨⟨hc.step p, hb.step hc p⟩, ?_⟩
    cases p with
    | main => exact h.mainStep hc hb hw
    | thread => exact h.threadStep hc hb

theorem noFrameLost_of_handshake_turns :
    Throughout (step quietEnv) .init NoFrameLost (turns 3) :=
  noFrameLost_of_handshake quietEnv (turns 3) (by decide +kernel)

/-! ## What is copied is what was accepted -/

/-- `main` waits for the copy of every frame whose image is a view of `dst_buf`, and
`rknn_thread` copies from no view while `letterbox` rebuilds the buffer. -/
def BufferHandshake (env : Env) (w : State × Handshake) (p : Proc) : Prop :=
  FetchesAfterCopy (fun k => env.rga k = .resized) w p ∧
    (p = .thread → ∀ i, w.1.thread = .copy i → (w.1.resizeImages i).image = .view →
      w.1.main.rebuilding = false)

instance (env : Env) (w : State × Handshake) (p : Proc) : Decidable (BufferHandshake env w p) :=
  inferInstanceAs (Decidable (_ ∧ _))

/-- **Queued images stay intact under the hand-shake.**  In every run in which `rkn_result_get`
finds `rkndo_ok` set only after a copy since the last acceptance, if the frame in work is a view
of `dst_buf`, and `rknn_thread` copies from no view while `letterbox` rebuilds the buffer. -/
theorem imagesIntact_of_handshake (env : Env) (schedule : List Proc)
    (hwaits : Along (watch (step env) Handshake.next) (.init, .none) (BufferHandshake env)
      schedule) :
    Throughout (step env) .init (ImagesIntact env) schedule := by
  have hinv := throughout_of_along
    (I := fun w : State × Handshake =>
      (Control w.1 ∧ Book w.1) ∧ Awaited (fun k => env.rga k = .resized) w.1 w.2)
    ⟨⟨control_init, book_init⟩, awaited_init _⟩ ?_ hwaits
  · rw [imagesIntact_iff, ← along_watch (step env) Handshake.next (w := (.init, .none))]
    refine hinv.along_mono ?_ hwaits
    rintro ⟨s, m⟩ (_ | _) ⟨-, h⟩ hw
    · intro hclear
      exact h.served (by rw [hclear]; rfl)
    · exact hw.2 rfl
  · rintro ⟨s, m⟩ p ⟨⟨hc, hb⟩, h⟩ hw
    refine ⟨⟨hc.step p, hb.step hc p⟩, ?_⟩
    cases p with
    | main => exact h.mainStep hb hw.1
    | thread => exact h.threadStep hc hb

theorem imagesIntact_of_handshake_turns :
    Throughout (step quietEnv) .init (ImagesIntact quietEnv) (turns 3) :=
  imagesIntact_of_handshake quietEnv (turns 3) (by decide +kernel)

/-! ## The result slot has one owner -/

/-- `rkn_result_get` finds `rkndo_ok` set only after `rknn_thread` has announced the result of
a round for the frame accepted last, and `rknn_thread` begins one round for each acceptance. -/
def ResultHandshake (w : FineState × Handshake) (p : Proc) : Prop :=
  (Fetches w.1.base p → w.2.answered = true) ∧
    (p = .thread → ∀ i, w.1.base.thread = .copy i → w.2.copied = false)

instance (w : FineState × Handshake) (p : Proc) : Decidable (ResultHandshake w p) :=
  inferInstanceAs (Decidable (_ ∧ _))

structure Claimed (s : State) (m : Handshake) : Prop where
  answered : m.answered = true → m.copied = true ∧ ∀ i, s.thread ≠ .infer i
  fetched : (∃ i, s.main = .getCopy i) → m.answered = true

section Claimed

variable {env : Env} {w : FineState} {m : Handshake}

theorem claimed_init : Claimed FineState.init.base .none where
  answered := fun h => absurd h (by simp [Handshake.none])
  fetched := by
    rintro ⟨i, h⟩
    exact absurd h (by simp [FineState.init, State.init])

theorem Claimed.mainStep (h : Claimed w.base m) (hw : ResultHandshake (w, m) .main) :
    Claimed (fineStep env w .main).base (m.next w.base .main) := by
  show Claimed (Pipeline.mainStep env w.base) _
  have hget : (∃ i, (Pipeline.mainStep env w.base).main = .getCopy i) →
      (∀ i, w.base.main ≠ .addSet i) ∧ m.answered = true := by
    rintro ⟨i, hcopy⟩
    obtain ⟨hread, hdone⟩ := mainStep_getCopy hcopy
    exact ⟨by simp [hread], hw.1 ⟨rfl, i, hread, hdone⟩⟩
  by_cases hset : ∃ i, w.base.main = .addSet i
  · obtain ⟨i, hpc⟩ := hset
    have hnext : m.next w.base .main = .none := by simp only [Handshake.next, hpc]
    rw [hnext]
    exact ⟨fun hanswered => absurd hanswered (by simp [Handshake.none]),
      fun hcopy => absurd hpc ((hget hcopy).1 i)⟩
  · have hnext : m.next w.base .main = m := by
      unfold Handshake.next
      dsimp only
      split
      · rename_i i hpc
        exact absurd ⟨i, hpc⟩ hset
      · rfl
    rw [hnext]
    refine ⟨?_, fun hcopy => (hget hcopy).2⟩
    rw [(mainKeeps env w.base).thread_eq]
    exact h.answered

theorem fineStep_thread_main (env : Env) (w : FineState) :
    (fineStep env w .thread).base.main = w.base.main := by
  have hk := (threadKeeps env w.base).main_eq
  cases hthread : w.base.thread with
  | infer i =>
      simp only [fineStep, hthread, inferStep, FineState.finish, FineState.store]
      split
      · split
        · exact hk
        · rfl
      · split
        · exact hk
        · rfl
      · split <;> rfl
      · exact hk
  | scan i | check | copy i | clearResize i | setDo i | crashed =>
      simp only [fineStep, hthread]
      exact hk

theorem Claimed.threadStep (h : Claimed w.base m) (hw : ResultHandshake (w, m) .thread) :
    Claimed (fineStep env w .thread).base (m.next w.base .thread) := by
  have hmain := fineStep_thread_main env w
  cases hthread : w.base.thread with
  | infer i =>
      have hopen : m.answered ≠ true := fun hanswered => (h.answered hanswered).2 i hthread
      have hnext : m.next w.base .thread = m := by simp only [Handshake.next, hthread]
      rw [hnext]
      refine ⟨fun hanswered => absurd hanswered hopen, ?_⟩
      rw [hmain]
      exact h.fetched
  | copy i =>
      have hopen : m.answered ≠ true := by
        intro hanswered
        have hcopied := (h.answered hanswered).1
        rw [hw.2 rfl i hthread] at hcopied
        exact absurd hcopied (by simp)
      simp only [Handshake.next, hthread]
      refine ⟨fun hanswered => absurd hanswered hopen, ?_⟩
      rw [hmain]
      exact h.fetched
  | setDo i =>
      have hbase : (fineStep env w .thread).base = Pipeline.threadStep env w.base := by
        simp only [fineStep, hthread]
      simp only [Handshake.next, hthread]
      refine ⟨fun hcopied => ⟨hcopied, ?_⟩, ?_⟩
      · intro j hinfer
        rw [hbase] at hinfer
        exact absurd (hthread.symm.trans (threadStep_infer hinfer).1) (by simp)
      · rw [hmain]
        exact fun hcopy => (h.answered (h.fetched hcopy)).1
  | scan i | check | clearResize i | crashed =>
      have hbase : (fineStep env w .thread).base = Pipeline.threadStep env w.base := by
        simp only [fineStep, hthread]
      simp only [Handshake.next, hthread]
      refine ⟨fun hanswered => ⟨(h.answered hanswered).1, ?_⟩, ?_⟩
      · intro j hinfer
        rw [hbase] at hinfer
        exact absurd (hthread.symm.trans (threadStep_infer hinfer).1) (by simp)
      · rw [hmain]
        exact h.fetched

end Claimed

/-- **A slot is owned exclusively under the hand-shake.**  In every run in which
`rkn_result_get` finds `rkndo_ok` set only after a round for the frame accepted last has been
announced, and `rknn_thread` begins one round for each acceptance, no list is copied during an
inference on it, and only lists that an inference has finished are drawn. -/
theorem ownedExclusively_of_handshake (env : Env) (schedule : List Proc)
    (hwaits : Along (watch (fineStep env) fun w p m => Handshake.next w.base p m)
      (.init, .none) ResultHandshake schedule) :
    Throughout (fineStep env) .init (OwnedExclusively env) schedule := by
  have hinv := throughout_of_along
    (I := fun w : FineState × Handshake => Claimed w.1.base w.2) claimed_init ?_ hwaits
  · rw [ownedExclusively_iff,
      ← along_watch (fineStep env) (fun w p m => Handshake.next w.base p m) (w := (.init, .none))]
    refine hinv.along_mono ?_ hwaits
    rintro ⟨w, m⟩ p h - - i hcopy - hinfer
    exact (h.answered (h.fetched ⟨i, hcopy⟩)).2 i hinfer
  · rintro ⟨w, m⟩ p h hw
    cases p with
    | main => exact h.mainStep hw
    | thread => exact h.threadStep hw

def fineTurns : List Proc :=
  steps .main 6 ++ steps .thread 9 ++ steps .main 10 ++ steps .thread 9 ++ steps .main 4

theorem ownedExclusively_of_handshake_fineTurns :
    Throughout (fineStep oneEntryEnv) .init (OwnedExclusively oneEntryEnv) fineTurns :=
  ownedExclusively_of_handshake oneEntryEnv fineTurns (by decide +kernel)

end CatDect.Pipeline
