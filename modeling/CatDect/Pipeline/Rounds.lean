import CatDect.Pipeline.Delivery
import Mathlib.Data.List.Nodup
import Mathlib.Data.List.Perm.Subperm

/-!
# The rounds of `rknn_thread`

`rknn_thread` is meant to run the network once for every accepted frame.  But `idx` keeps
its value when a scan of `resize_ok` comes out empty, and then the slot of the last round
is copied and inferred again.
-/

namespace CatDect.Pipeline

open CatDect.Support

/-! ## The history of the rounds -/

/-- A `memcpy` that `rknn_thread` begins: the slot, its flag and the frame in it. -/
structure Start where
  slot : Fin 2
  flag : Bool
  frame : Option ℕ

def State.start (s : State) (i : Fin 2) : Start := ⟨i, s.resizeOk i, (s.resizeImages i).frame⟩

/-- A store of 1 in a cell of `rkndo_ok`: the frame that was inferred, and the frames accepted
since 1 was stored there last. -/
structure Raise where
  frame : Option ℕ
  since : List (ℕ × Fin 2)

/-- An observer of the schedule.  The last three fields say whether a frame was accepted since
`resize_ok` was cleared last, whether the frame accepted last was accepted while `rknn_thread`
stood between its two stores, and whether that is so of the frame of the round. -/
structure Rounds where
  starts : List Start
  raises : List Raise
  seen : Fin 2 → ℕ
  live : Bool
  early : Bool
  roundEarly : Bool

def Rounds.none : Rounds := ⟨[], [], fun _ => 0, false, false, false⟩

def Rounds.next (s : State) (p : Proc) (m : Rounds) : Rounds :=
  match p with
  | .main =>
      match s.main with
      | .addSet i => { m with live := true, early := decide (s.thread = .setDo i) }
      | .getClear _ => { m with live := false }
      | _ => m
  | .thread =>
      match s.thread with
      | .copy i =>
          { m with
            starts := m.starts ++ [s.start i]
            roundEarly := m.early }
      | .clearResize _ => { m with live := false }
      | .setDo i =>
          { m with
            raises := m.raises ++
              [⟨m.starts.getLast?.bind fun c => c.frame, s.accepted.drop (m.seen i)⟩]
            seen := Function.update m.seen i s.accepted.length }
      | _ => m

/-! ## The promise -/

/-- Every copy began with the flag of its slot set, for an accepted frame not copied before,
and every result was announced for a frame accepted since the last announcement. -/
structure NoSpuriousInference (s : State) (m : Rounds) : Prop where
  flagged : ∀ c ∈ m.starts, c.flag = true ∧ ∃ k, c.frame = some k ∧ (k, c.slot) ∈ s.accepted
  once : (m.starts.map fun c => c.frame).Nodup
  raised : ∀ r ∈ m.raises, ∃ a ∈ r.since, r.frame = some a.1
  count_le : m.starts.length ≤ s.accepted.length

/-- `rknn_thread` begins a copy only if a frame was accepted since `resize_ok` was cleared
last, and announces a result only if the frame of the round was not accepted between its two
stores of the round before. -/
def RoundAllowed (w : State × Rounds) (p : Proc) : Prop :=
  p = .thread → (∀ i, w.1.thread = .copy i → w.2.live = true) ∧
    ∀ i, w.1.thread = .setDo i → w.2.roundEarly = false

namespace ThreadPc

def between : ThreadPc → Bool
  | scan _ | check | copy _ => true
  | _ => false

def inRound : ThreadPc → Bool
  | infer _ | clearResize _ | setDo _ => true
  | _ => false

end ThreadPc

structure Windows (s : State) (m : Rounds) : Prop where
  live_eq : m.live = s.resizeOk 0
  seen_le : m.seen 0 ≤ s.accepted.length
  fresh : s.resizeOk 0 = true → (s.thread.between = true ∨ ∃ i, s.thread = .setDo i) →
    ∀ c ∈ m.starts, c.frame ≠ some s.frame
  early_setDo : s.resizeOk 0 = true → (∃ i, s.thread = .setDo i) → m.early = true
  early_iff : s.resizeOk 0 = true → s.thread.between = true →
    (m.early = true ↔ m.seen 0 = s.accepted.length)
  round : s.thread.inRound = true → ∃ c k, m.starts.getLast? = some c ∧ c.frame = some k ∧
    (k, 0) ∈ s.accepted ∧ (m.roundEarly = false ↔ m.seen 0 ≤ k)

theorem windows_init : Windows .init .none where
  live_eq := rfl
  seen_le := Nat.le_refl 0
  fresh := fun h => absurd h (by simp [State.init])
  early_setDo := fun h => absurd h (by simp [State.init])
  early_iff := fun h => absurd h (by simp [State.init])
  round := fun h => absurd h (by simp [State.init, ThreadPc.inRound])

theorem noSpuriousInference_init : NoSpuriousInference .init .none where
  flagged := fun _ hc => absurd hc List.not_mem_nil
  once := List.nodup_nil
  raised := fun _ hr => absurd hr List.not_mem_nil
  count_le := Nat.le_refl 0

section Windows

variable {env : Env} {s s' : State} {m : Rounds}

theorem Windows.of_same (h : Windows s m) (hok : s'.resizeOk 0 = s.resizeOk 0)
    (haccepted : s'.accepted = s.accepted) (hthread : s'.thread = s.thread)
    (hframe : s.resizeOk 0 = true → s'.frame = s.frame) : Windows s' m := by
  obtain ⟨h1, h2, h3, h4, h5, h6⟩ := h
  constructor
  · rw [hok]
    exact h1
  · rw [haccepted]
    exact h2
  · rw [hok, hthread]
    intro hset
    rw [hframe hset]
    exact h3 hset
  · rw [hok, hthread]
    exact h4
  · rw [hok, hthread, haccepted]
    exact h5
  · rw [hthread, haccepted]
    exact h6

theorem Windows.of_cleared (h : Windows s m) (hok : s'.resizeOk 0 = false)
    (haccepted : s'.accepted = s.accepted)
    (hround : s'.thread.inRound = true → s.thread.inRound = true) :
    Windows s' { m with live := false } := by
  have hnot : s'.resizeOk 0 ≠ true := by
    rw [hok]
    exact Bool.false_ne_true
  refine ⟨hok.symm, ?_, fun hset => absurd hset hnot, fun hset => absurd hset hnot,
    fun hset => absurd hset hnot, ?_⟩
  · rw [haccepted]
    exact h.seen_le
  · rw [haccepted]
    exact fun hin => h.round (hround hin)

theorem Windows.addSet (h : Windows s m) (hp : NoSpuriousInference s m) (hc : Control s)
    (hb : Book s) {i : Fin 2} (hpc : s.main = .addSet i) :
    Windows (mainStep env s) (m.next s .main) := by
  have hi : i = 0 := hc.main_at hpc
  subst hi
  simp only [mainStep, Rounds.next, hpc]
  refine ⟨by simp, ?_, ?_, ?_, ?_, ?_⟩
  · have := h.seen_le
    simp only [List.length_append]
    omega
  · intro _ _ c hcs heq
    -- earlier copies were of earlier frames
    obtain ⟨-, k, hk, hmem⟩ := hp.flagged c hcs
    have hlt := (hb.accepted_mem hmem).2.2 (by rw [hpc]; rfl)
    rw [hk] at heq
    exact absurd (Option.some.inj heq) (by dsimp only; omega)
  · rintro - ⟨i, hthread⟩
    have hi : i = 0 := hc.thread_at hthread
    exact decide_eq_true (by rw [hthread, hi])
  · intro _ hbetween
    have hne : s.thread ≠ .setDo 0 := by
      intro hthread
      rw [hthread] at hbetween
      exact absurd hbetween (by simp [ThreadPc.between])
    have := h.seen_le
    rw [decide_eq_false hne]
    simp only [Bool.false_eq_true, false_iff, List.length_append, List.length_singleton]
    omega
  · intro hin
    obtain ⟨c, k, hlast, hk, hmem, hround⟩ := h.round hin
    exact ⟨c, k, hlast, hk, List.mem_append_left _ hmem, hround⟩

theorem Windows.mainStep (h : Windows s m) (hp : NoSpuriousInference s m) (hc : Control s)
    (hb : Book s) : Windows (mainStep env s) (m.next s .main) := by
  cases hpc : s.main with
  | addSet i => exact h.addSet hp hc hb hpc
  | getClear i =>
      have hi : i = 0 := hc.main_at hpc
      subst hi
      simp only [Rounds.next, hpc]
      apply h.of_cleared
      · simp only [Pipeline.mainStep, hpc, Function.update_self]
      · simp only [Pipeline.mainStep, hpc]
      · rw [(mainKeeps env s).thread_eq]
        exact id
  | draw =>
      have hfree := hc.slot_free (by rw [hpc]; rfl)
      obtain ⟨st, -, -, hstep⟩ := hc.toMainSide.draw env hpc
      rw [hstep]
      simp only [Rounds.next, hpc]
      exact h.of_same rfl rfl rfl fun hset => absurd (hfree.symm.trans hset) (by simp)
  | poll | resize | addRead i | getRead i =>
      simp only [Rounds.next, hpc, Pipeline.mainStep]
      split <;> exact h.of_same rfl rfl rfl fun _ => rfl
  | clear | addStore i | getCopy i =>
      simp only [Rounds.next, hpc, Pipeline.mainStep]
      exact h.of_same rfl rfl rfl fun _ => rfl
  | aborted =>
      exact (hc.main_at hpc).elim

theorem slot_of_live (hc : Control s) (hb : Book s) (hset : s.resizeOk 0 = true) :
    (s.resizeImages 0).frame = some s.frame ∧ (s.frame, 0) ∈ s.accepted ∧
      s.accepted.length = s.frame + 1 := by
  have hwait := hc.resizeOk_zero hset
  have hphase : s.main.stored = true ∧ s.main.accepted = true := by
    revert hwait
    cases s.main <;> simp [MainPc.waiting, MainPc.stored, MainPc.accepted]
  refine ⟨by rw [hb.slot_frame, if_pos hphase.1], ?_, ?_⟩
  · exact List.mem_of_getLast? (hb.last_of_accepted hphase.2)
  · rw [hb.accepted_eq, if_pos hphase.2, List.length_map, List.length_range]

theorem Windows.copy (h : Windows s m) (hc : Control s) (hb : Book s) {i : Fin 2}
    (hpc : s.thread = .copy i) (hlive : m.live = true) :
    Windows (threadStep env s) (m.next s .thread) := by
  have hi : i = 0 := hc.thread_at hpc
  subst hi
  have hset : s.resizeOk 0 = true := h.live_eq.symm.trans hlive
  obtain ⟨hslot, hmem, hlen⟩ := slot_of_live hc hb hset
  have hbetween : s.thread.between = true := by rw [hpc]; rfl
  have hearly := h.early_iff hset hbetween
  have hround : m.early = false ↔ m.seen 0 ≤ s.frame := by
    have := h.seen_le
    rw [← Bool.not_eq_true, hearly]
    omega
  simp only [Pipeline.threadStep, Rounds.next, hpc]
  split
  · refine ⟨h.live_eq, h.seen_le, fun _ hp => ?_, fun _ hp => ?_, fun _ hp => ?_,
      fun _ => ⟨_, s.frame, List.getLast?_concat, hslot, hmem, hround⟩⟩
    · simp [ThreadPc.between] at hp
    · simp at hp
    · simp [ThreadPc.between] at hp
  · refine ⟨h.live_eq, h.seen_le, fun _ hp => ?_, fun _ hp => ?_, fun _ hp => ?_, fun hp => ?_⟩
    · simp [ThreadPc.between] at hp
    · simp at hp
    · simp [ThreadPc.between] at hp
    · simp [ThreadPc.inRound] at hp

theorem Windows.of_between (h : Windows s m) (hok : s'.resizeOk = s.resizeOk)
    (haccepted : s'.accepted = s.accepted) (hframe : s'.frame = s.frame)
    (hthread : s.thread.between = true) (hthread' : s'.thread.between = true) :
    Windows s' m := by
  have hset : ∀ i, s'.thread ≠ .setDo i := by
    intro i hi
    rw [hi] at hthread'
    exact absurd hthread' (by simp [ThreadPc.between])
  have hin : s'.thread.inRound ≠ true := by
    revert hthread'
    cases s'.thread <;> simp [ThreadPc.between, ThreadPc.inRound]
  refine ⟨?_, ?_, ?_, ?_, ?_, fun hround => absurd hround hin⟩
  · rw [hok]
    exact h.live_eq
  · rw [haccepted]
    exact h.seen_le
  · rw [hok, hframe]
    exact fun hlive _ => h.fresh hlive (.inl hthread)
  · rintro - ⟨i, hi⟩
    exact absurd hi (hset i)
  · rw [hok, haccepted]
    exact fun hlive _ => h.early_iff hlive hthread

theorem Windows.threadStep (h : Windows s m) (hc : Control s) (hb : Book s)
    (hallowed : RoundAllowed (s, m) .thread) :
    Windows (threadStep env s) (m.next s .thread) := by
  cases hpc : s.thread with
  | scan i =>
      have hbetween : s.thread.between = true := by rw [hpc]; rfl
      simp only [Pipeline.threadStep, Rounds.next, hpc]
      split
      · exact h.of_between rfl rfl rfl hbetween rfl
      · have hnext : ThreadPc.between (if i = 0 then .scan 1 else .check) = true := by
          split <;> rfl
        exact h.of_between rfl rfl rfl hbetween hnext
  | check =>
      have hbetween : s.thread.between = true := by rw [hpc]; rfl
      simp only [Pipeline.threadStep, Rounds.next, hpc]
      split <;> exact h.of_between rfl rfl rfl hbetween rfl
  | copy i => exact h.copy hc hb hpc ((hallowed rfl).1 i hpc)
  | infer i =>
      simp only [Pipeline.threadStep, Rounds.next, hpc]
      refine ⟨h.live_eq, h.seen_le, fun _ hp => ?_, fun _ hp => ?_, fun _ hp => ?_,
        fun _ => h.round (by rw [hpc]; rfl)⟩
      · simp [ThreadPc.between] at hp
      · simp at hp
      · simp [ThreadPc.between] at hp
  | clearResize i =>
      have hi : i = 0 := hc.thread_at hpc
      subst hi
      simp only [Rounds.next, hpc]
      apply h.of_cleared
      · simp only [Pipeline.threadStep, hpc, Function.update_self]
      · simp only [Pipeline.threadStep, hpc]
      · rw [hpc]
        exact fun _ => rfl
  | setDo i =>
      have hi : i = 0 := hc.thread_at hpc
      subst hi
      simp only [Pipeline.threadStep, Rounds.next, hpc]
      refine ⟨h.live_eq, by simp, fun hlive _ => h.fresh hlive (.inr ⟨0, hpc⟩), fun _ hp => ?_,
        fun hlive _ => ?_, fun hp => ?_⟩
      · simp at hp
      · exact iff_of_true (h.early_setDo hlive ⟨0, hpc⟩) (by simp)
      · simp [ThreadPc.inRound] at hp
  | crashed =>
      simp only [Pipeline.threadStep, Rounds.next, hpc]
      exact h

/-! ## One step -/

theorem NoSpuriousInference.of_same (h : NoSpuriousInference s m) {m' : Rounds}
    (hstarts : m'.starts = m.starts) (hraises : m'.raises = m.raises)
    (haccepted : ∀ a ∈ s.accepted, a ∈ s'.accepted)
    (hlen : s.accepted.length ≤ s'.accepted.length) : NoSpuriousInference s' m' := by
  obtain ⟨h1, h2, h3, h4⟩ := h
  constructor
  · rw [hstarts]
    intro c hc
    obtain ⟨hflag, k, hk, hmem⟩ := h1 c hc
    exact ⟨hflag, k, hk, haccepted _ hmem⟩
  · rw [hstarts]
    exact h2
  · rw [hraises]
    exact h3
  · rw [hstarts]
    exact h4.trans hlen

theorem NoSpuriousInference.copy_iff (h : NoSpuriousInference s m) (hw : Windows s m)
    (hc : Control s) (hb : Book s) {i : Fin 2} (hpc : s.thread = .copy i) :
    NoSpuriousInference (threadStep env s) (m.next s .thread) ↔ m.live = true := by
  have hk := threadKeeps env s
  have hi : i = 0 := hc.thread_at hpc
  subst hi
  have hstarts : (m.next s .thread).starts = m.starts ++ [s.start 0] := by
    simp only [Rounds.next, hpc]
  have hraises : (m.next s .thread).raises = m.raises := by simp only [Rounds.next, hpc]
  constructor
  · intro h'
    have hflag := (h'.flagged (s.start 0) (by simp [hstarts])).1
    exact hw.live_eq.trans hflag
  · intro hlive
    have hset : s.resizeOk 0 = true := hw.live_eq.symm.trans hlive
    obtain ⟨hslot, hmem, hlen⟩ := slot_of_live hc hb hset
    have hfresh := hw.fresh hset (.inl (by rw [hpc]; rfl))
    have honce : ((m.starts ++ [s.start 0]).map fun c => c.frame).Nodup := by
      rw [List.map_append, List.nodup_append]
      refine ⟨h.once, List.nodup_singleton _, ?_⟩
      intro a ha b hb' heq
      obtain ⟨c, hcs, rfl⟩ := List.mem_map.mp ha
      rw [List.map_singleton, List.mem_singleton] at hb'
      exact hfresh c hcs (heq.trans (hb'.trans hslot))
    constructor
    · rw [hstarts, hk.accepted_eq]
      intro c hcs
      rcases List.mem_append.mp hcs with hold | hnew
      · exact h.flagged c hold
      · rw [List.mem_singleton.mp hnew]
        exact ⟨hset, s.frame, hslot, hmem⟩
    · rw [hstarts]
      exact honce
    · rw [hraises]
      exact h.raised
    · -- the copies are of different accepted frames
      rw [hstarts, hk.accepted_eq]
      have hsub : (m.starts ++ [s.start 0]).map (fun c => c.frame) ⊆
          s.accepted.map fun a => some a.1 := by
        intro f hf
        obtain ⟨c, hcs, rfl⟩ := List.mem_map.mp hf
        rcases List.mem_append.mp hcs with hold | hnew
        · obtain ⟨-, k, hk, hmem⟩ := h.flagged c hold
          rw [hk]
          exact List.mem_map.mpr ⟨_, hmem, rfl⟩
        · rw [List.mem_singleton.mp hnew]
          exact List.mem_map.mpr ⟨_, hmem, hslot.symm⟩
      have hle := (List.subperm_of_subset honce hsub).length_le
      simpa using hle

theorem mem_drop_accepted (hb : Book s) {k n : ℕ} (hmem : (k, (0 : Fin 2)) ∈ s.accepted) :
    (∃ a ∈ s.accepted.drop n, some k = some a.1) ↔ n ≤ k := by
  obtain ⟨j, hj, heq⟩ := List.mem_map.mp (hb.accepted_eq ▸ hmem)
  have hk : j = k := congrArg Prod.fst heq
  subst hk
  have hlt := List.mem_range.mp hj
  rw [hb.accepted_eq]
  constructor
  · rintro ⟨a, ha, hka⟩
    obtain ⟨l, hl, hget⟩ := List.mem_iff_getElem.mp ha
    rw [List.getElem_drop, List.getElem_map, List.getElem_range] at hget
    rw [← hget] at hka
    have := Option.some.inj hka
    dsimp only at this
    omega
  · intro hle
    refine ⟨(j, 0), List.mem_iff_getElem.mpr ⟨j - n, ?_, ?_⟩, rfl⟩
    · rw [List.length_drop, List.length_map, List.length_range]
      omega
    · rw [List.getElem_drop, List.getElem_map, List.getElem_range]
      congr 1
      omega

theorem NoSpuriousInference.setDo_iff (h : NoSpuriousInference s m) (hw : Windows s m)
    (hc : Control s) (hb : Book s) {i : Fin 2} (hpc : s.thread = .setDo i) :
    NoSpuriousInference (threadStep env s) (m.next s .thread) ↔ m.roundEarly = false := by
  have hk := threadKeeps env s
  have hi : i = 0 := hc.thread_at hpc
  subst hi
  obtain ⟨c, k, hlast, hck, hmem, hround⟩ := hw.round (by rw [hpc]; rfl)
  have hstarts : (m.next s .thread).starts = m.starts := by simp only [Rounds.next, hpc]
  have hraises : (m.next s .thread).raises =
      m.raises ++ [⟨some k, s.accepted.drop (m.seen 0)⟩] := by
    simp only [Rounds.next, hpc, hlast, Option.bind_some, hck]
  rw [hround, ← mem_drop_accepted hb hmem]
  constructor
  · intro h'
    exact h'.raised ⟨some k, s.accepted.drop (m.seen 0)⟩ (by simp [hraises])
  · intro hnew
    have hsame : NoSpuriousInference (Pipeline.threadStep env s) m :=
      h.of_same rfl rfl (fun a ha => hk.accepted_eq ▸ ha) (by rw [hk.accepted_eq])
    refine ⟨?_, ?_, ?_, ?_⟩
    · rw [hstarts]
      exact hsame.flagged
    · rw [hstarts]
      exact hsame.once
    · rw [hraises]
      intro r hr
      rcases List.mem_append.mp hr with hold | hlast
      · exact h.raised r hold
      · rw [List.mem_singleton.mp hlast]
        exact hnew
    · rw [hstarts]
      exact hsame.count_le

theorem NoSpuriousInference.step_iff (h : NoSpuriousInference s m) (hw : Windows s m)
    (hc : Control s) (hb : Book s) (p : Proc) :
    NoSpuriousInference (step env s p) (m.next s p) ↔ RoundAllowed (s, m) p := by
  cases p with
  | main =>
      have hnext : (m.next s .main).starts = m.starts ∧ (m.next s .main).raises = m.raises := by
        unfold Rounds.next
        cases s.main <;> exact ⟨rfl, rfl⟩
      have hprefix := accepted_prefix_mainStep env s
      constructor
      · exact fun _ hp => absurd hp (by simp)
      · exact fun _ => h.of_same hnext.1 hnext.2 (fun a ha => hprefix.subset ha) hprefix.length_le
  | thread =>
      have hk := threadKeeps env s
      cases hpc : s.thread with
      | copy i =>
          rw [show step env s .thread = threadStep env s from rfl, h.copy_iff hw hc hb hpc]
          constructor
          · exact fun hlive _ =>
              ⟨fun _ _ => hlive, fun j hj => absurd (hpc.symm.trans hj) (by simp)⟩
          · exact fun hallowed => (hallowed rfl).1 i hpc
      | setDo i =>
          rw [show step env s .thread = threadStep env s from rfl, h.setDo_iff hw hc hb hpc]
          constructor
          · exact fun hround _ =>
              ⟨fun j hj => absurd (hpc.symm.trans hj) (by simp), fun _ _ => hround⟩
          · exact fun hallowed => (hallowed rfl).2 i hpc
      | scan i | check | infer i | clearResize i | crashed =>
          constructor
          · exact fun _ _ => ⟨fun j hj => absurd (hpc.symm.trans hj) (by simp),
              fun j hj => absurd (hpc.symm.trans hj) (by simp)⟩
          · intro _
            apply h.of_same
            · simp only [Rounds.next, hpc]
            · simp only [Rounds.next, hpc]
            · exact fun a ha => hk.accepted_eq ▸ ha
            · exact (congrArg List.length hk.accepted_eq).ge

end Windows

/-- **When no inference is spurious.**  Throughout a run every copy begins with its flag set
for an accepted frame not copied before, and every result is announced for a frame accepted
since the last announcement, exactly if `rknn_thread` begins a copy only after a frame has
been accepted since `resize_ok` was cleared last, and announces no frame that was accepted
between its two stores of the round before. -/
theorem noSpuriousInference_iff (env : Env) (schedule : List Proc) :
    Throughout (watch (step env) Rounds.next) (.init, .none)
        (fun w => NoSpuriousInference w.1 w.2) schedule ↔
      Along (watch (step env) Rounds.next) (.init, .none) RoundAllowed schedule := by
  apply throughout_iff_along_of_kept
    (I := fun w : State × Rounds => (Control w.1 ∧ Book w.1) ∧ Windows w.1 w.2)
    ⟨⟨control_init, book_init⟩, windows_init⟩ _ noSpuriousInference_init _ schedule
  · rintro ⟨s, m⟩ p ⟨⟨hc, hb⟩, hw⟩ h hallowed
    refine ⟨⟨hc.step p, hb.step hc p⟩, ?_⟩
    cases p with
    | main => exact hw.mainStep h hc hb
    | thread => exact hw.threadStep hc hb hallowed
  · rintro ⟨s, m⟩ p ⟨⟨hc, hb⟩, hw⟩ h
    exact h.step_iff hw hc hb p

def secondRound : List Proc := steps .main 6 ++ steps .thread 10

/-- After the first round the next scan is empty, and the same slot is copied again. -/
theorem second_round_spurious :
    ¬ Throughout (watch (step quietEnv) Rounds.next) (.init, .none)
      (fun w => NoSpuriousInference w.1 w.2) secondRound := by
  intro h
  have honce := (h secondRound (List.prefix_refl _)).count_le
  have hstarts : (run (watch (step quietEnv) Rounds.next) (.init, .none) secondRound).2.starts =
      [⟨0, true, some 0⟩, ⟨0, false, some 0⟩] := by rfl
  have haccepted : (run (watch (step quietEnv) Rounds.next) (.init, .none)
      secondRound).1.accepted = [(0, 0)] := by rfl
  rw [hstarts, haccepted] at honce
  exact absurd honce (by decide)

end CatDect.Pipeline
