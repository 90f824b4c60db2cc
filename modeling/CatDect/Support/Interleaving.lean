import Mathlib.Data.List.Induction
import Mathlib.Data.List.Infix

/-!
# Runs of interleaved processes

A system of processes is a step function on a state, one step for each process; a
schedule is the list of the processes that take a step.  The two rules are about all
runs: `run_invariant` for what every step preserves, and `throughout_iff_along` for a
property that a step may break, which holds all along a run exactly if every step of
the run meets the condition that keeps it.
-/

namespace CatDect.Support

variable {σ π : Type*} (step : σ → π → σ) (s : σ)

def run (schedule : List π) : σ := schedule.foldl step s

@[simp] theorem run_append_singleton (schedule : List π) (p : π) :
    run step s (schedule ++ [p]) = step (run step s schedule) p := by
  unfold run
  rw [List.foldl_append]
  rfl

theorem run_append (first rest : List π) :
    run step s (first ++ rest) = run step (run step s first) rest :=
  List.foldl_append

/-- `P` holds in every state that the run reaches. -/
def Throughout (P : σ → Prop) (schedule : List π) : Prop :=
  ∀ start, start.IsPrefix schedule → P (run step s start)

/-- Every step of the run is taken in a state in which `C` allows it. -/
def Along (C : σ → π → Prop) (schedule : List π) : Prop :=
  ∀ start p, (start ++ [p]).IsPrefix schedule → C (run step s start) p

variable {step s}

theorem isPrefix_append_singleton {l l' : List π} {p : π} :
    l'.IsPrefix (l ++ [p]) ↔ l'.IsPrefix l ∨ l' = l ++ [p] := by
  constructor
  · intro h
    rcases List.eq_nil_or_concat l' with rfl | ⟨l'', q, rfl⟩
    · exact .inl List.nil_prefix
    · rw [List.concat_eq_append] at h ⊢
      obtain ⟨t, ht⟩ := h
      rcases List.eq_nil_or_concat t with rfl | ⟨t', r, rfl⟩
      · exact .inr (by simpa using ht)
      · rw [List.concat_eq_append, ← List.append_assoc] at ht
        exact .inl ⟨t', (List.append_inj' ht rfl).1⟩
  · rintro (h | rfl)
    · exact h.trans (List.prefix_append _ _)
    · exact List.prefix_refl _

theorem throughout_append_singleton {P : σ → Prop} {schedule : List π} {p : π} :
    Throughout step s P (schedule ++ [p]) ↔
      Throughout step s P schedule ∧ P (run step s (schedule ++ [p])) := by
  constructor
  · intro h
    exact ⟨fun start hs => h start (hs.trans (List.prefix_append _ _)),
      h _ (List.prefix_refl _)⟩
  · rintro ⟨hbefore, hlast⟩ start hs
    rcases isPrefix_append_singleton.mp hs with hs | rfl
    · exact hbefore start hs
    · exact hlast

theorem along_append_singleton {C : σ → π → Prop} {schedule : List π} {p : π} :
    Along step s C (schedule ++ [p]) ↔ Along step s C schedule ∧ C (run step s schedule) p := by
  constructor
  · intro h
    exact ⟨fun start q hs => h start q (hs.trans (List.prefix_append _ _)),
      h _ _ (List.prefix_refl _)⟩
  · rintro ⟨hbefore, hlast⟩ start q hs
    rcases isPrefix_append_singleton.mp hs with hs | heq
    · exact hbefore start q hs
    · obtain ⟨rfl, hq⟩ := List.append_inj' heq rfl
      have hsame := List.singleton_inj.mp hq
      subst hsame
      exact hlast

theorem run_invariant {I : σ → Prop} (h0 : I s) (hstep : ∀ s p, I s → I (step s p))
    (schedule : List π) : I (run step s schedule) := by
  induction schedule using List.reverseRecOn with
  | nil => exact h0
  | append_singleton schedule p ih =>
      rw [run_append_singleton]
      exact hstep _ p ih

/-- If under the invariant `I` a step keeps `P` exactly when `C` allows it, then `P` holds
throughout a run exactly if `C` allows all its steps.  The invariant may rest on `P` and `C`. -/
theorem throughout_iff_along_of_kept {I P : σ → Prop} {C : σ → π → Prop} (hI0 : I s)
    (hI : ∀ s p, I s → P s → C s p → I (step s p)) (h0 : P s)
    (hstep : ∀ s p, I s → P s → (P (step s p) ↔ C s p)) (schedule : List π) :
    Throughout step s P schedule ↔ Along step s C schedule := by
  suffices h : (Throughout step s P schedule ↔ Along step s C schedule) ∧
      (Along step s C schedule → I (run step s schedule)) from h.1
  induction schedule using List.reverseRecOn with
  | nil =>
      refine ⟨?_, fun _ => hI0⟩
      constructor
      · intro _ start p hs
        exact absurd (List.prefix_nil.mp hs) (by simp)
      · intro _ start hs
        rw [List.prefix_nil.mp hs]
        exact h0
  | append_singleton schedule p ih =>
      obtain ⟨hiff, hinv⟩ := ih
      rw [throughout_append_singleton, along_append_singleton, hiff, run_append_singleton]
      constructor
      · apply and_congr_right
        intro halong
        exact hstep _ p (hinv halong) (hiff.mpr halong _ (List.prefix_refl _))
      · rintro ⟨halong, hC⟩
        exact hI _ p (hinv halong) (hiff.mpr halong _ (List.prefix_refl _)) hC

theorem throughout_iff_along {I P : σ → Prop} {C : σ → π → Prop} (hI0 : I s)
    (hI : ∀ s p, I s → I (step s p)) (h0 : P s)
    (hstep : ∀ s p, I s → P s → (P (step s p) ↔ C s p)) (schedule : List π) :
    Throughout step s P schedule ↔ Along step s C schedule :=
  throughout_iff_along_of_kept hI0 (fun s p h _ _ => hI s p h) h0 hstep schedule

theorem throughout_of_along {I : σ → Prop} {C : σ → π → Prop} (h0 : I s)
    (hstep : ∀ s p, I s → C s p → I (step s p)) {schedule : List π}
    (h : Along step s C schedule) : Throughout step s I schedule := by
  induction schedule using List.reverseRecOn with
  | nil =>
      intro start hs
      rw [List.prefix_nil.mp hs]
      exact h0
  | append_singleton schedule p ih =>
      obtain ⟨hbefore, hlast⟩ := along_append_singleton.mp h
      have hinv := ih hbefore
      rw [throughout_append_singleton, run_append_singleton]
      exact ⟨hinv, hstep _ p (hinv _ (List.prefix_refl _)) hlast⟩

theorem Throughout.along_mono {I : σ → Prop} {C D : σ → π → Prop} {schedule : List π}
    (h : Throughout step s I schedule) (hcond : ∀ s p, I s → C s p → D s p)
    (hC : Along step s C schedule) : Along step s D schedule :=
  fun start p hs => hcond _ p (h start ((List.prefix_append _ _).trans hs)) (hC start p hs)

theorem Throughout.along_congr {I : σ → Prop} {C D : σ → π → Prop} {schedule : List π}
    (h : Throughout step s I schedule) (hcond : ∀ s p, I s → (C s p ↔ D s p)) :
    Along step s C schedule ↔ Along step s D schedule :=
  ⟨h.along_mono fun s p hI => (hcond s p hI).mp, h.along_mono fun s p hI => (hcond s p hI).mpr⟩

theorem throughout_cons {P : σ → Prop} {p : π} {schedule : List π} :
    Throughout step s P (p :: schedule) ↔ P s ∧ Throughout step (step s p) P schedule := by
  constructor
  · intro h
    refine ⟨h [] List.nil_prefix, fun start hs => ?_⟩
    exact h (p :: start) (List.cons_prefix_cons.mpr ⟨rfl, hs⟩)
  · intro ⟨hfirst, hrest⟩ start hs
    cases start with
    | nil => exact hfirst
    | cons q start =>
        obtain ⟨rfl, htail⟩ := List.cons_prefix_cons.mp hs
        exact hrest start htail

theorem throughout_nil {P : σ → Prop} : Throughout step s P ([] : List π) ↔ P s := by
  constructor
  · intro h
    exact h [] List.nil_prefix
  · intro h start hs
    rw [List.prefix_nil.mp hs]
    exact h

theorem along_cons {C : σ → π → Prop} {p : π} {schedule : List π} :
    Along step s C (p :: schedule) ↔ C s p ∧ Along step (step s p) C schedule := by
  constructor
  · intro h
    exact ⟨h [] p (List.cons_prefix_cons.mpr ⟨rfl, List.nil_prefix⟩),
      fun start q hs => h (p :: start) q (List.cons_prefix_cons.mpr ⟨rfl, hs⟩)⟩
  · intro ⟨hfirst, hrest⟩ start q hs
    cases start with
    | nil =>
        obtain ⟨rfl, -⟩ := List.cons_prefix_cons.mp hs
        exact hfirst
    | cons r start =>
        obtain ⟨rfl, htail⟩ := List.cons_prefix_cons.mp hs
        exact hrest start q htail

theorem along_nil {C : σ → π → Prop} : Along step s C [] := by
  intro start q hs
  exact absurd (List.prefix_nil.mp hs) (by simp)

instance decidableAlong (C : σ → π → Prop) [∀ s p, Decidable (C s p)] :
    ∀ (s : σ) (schedule : List π), Decidable (Along step s C schedule)
  | _, [] => isTrue along_nil
  | s, p :: schedule =>
      have := decidableAlong C (step s p) schedule
      decidable_of_iff (C s p ∧ Along step (step s p) C schedule) along_cons.symm

/-! ## Watching a run -/

section Watch

variable {μ : Type*} (step) (next : σ → π → μ → μ)

/-- The steps of a system together with an observer that sees the state before each step. -/
def watch (w : σ × μ) (p : π) : σ × μ := (step w.1 p, next w.1 p w.2)

@[simp] theorem run_watch_fst (w : σ × μ) (schedule : List π) :
    (run (watch step next) w schedule).1 = run step w.1 schedule := by
  induction schedule using List.reverseRecOn with
  | nil => rfl
  | append_singleton schedule p ih =>
      rw [run_append_singleton, run_append_singleton, watch, ih]

theorem throughout_watch {P : σ → Prop} {w : σ × μ} {schedule : List π} :
    Throughout (watch step next) w (fun w => P w.1) schedule ↔
      Throughout step w.1 P schedule := by
  simp only [Throughout, run_watch_fst]

theorem along_watch {C : σ → π → Prop} {w : σ × μ} {schedule : List π} :
    Along (watch step next) w (fun w p => C w.1 p) schedule ↔ Along step w.1 C schedule := by
  simp only [Along, run_watch_fst]

end Watch

/-! ## Histories -/

section Histories

variable {α : Type*} {C D : List α → α → Prop} {history : List α} {a : α}

/-- Every entry of a history meets `C`, which sees the entries before it. -/
def EachEntry (C : List α → α → Prop) (history : List α) : Prop :=
  ∀ before a, (before ++ [a]).IsPrefix history → C before a

theorem eachEntry_nil : EachEntry C [] := by
  intro before a h
  exact absurd (List.prefix_nil.mp h) (by simp)

theorem eachEntry_append_singleton :
    EachEntry C (history ++ [a]) ↔ EachEntry C history ∧ C history a := by
  constructor
  · intro h
    exact ⟨fun before b hb => h before b (hb.trans (List.prefix_append _ _)),
      h _ _ (List.prefix_refl _)⟩
  · rintro ⟨hbefore, hlast⟩ before b hb
    rcases isPrefix_append_singleton.mp hb with hb | heq
    · exact hbefore before b hb
    · obtain ⟨rfl, hsame⟩ := List.append_inj' heq rfl
      obtain rfl := List.singleton_inj.mp hsame
      exact hlast

theorem eachEntry_append {first rest : List α} :
    EachEntry C (first ++ rest) ↔
      EachEntry C first ∧ EachEntry (fun before a => C (first ++ before) a) rest := by
  induction rest using List.reverseRecOn with
  | nil =>
      rw [List.append_nil]
      exact (and_iff_left eachEntry_nil).symm
  | append_singleton rest a ih =>
      rw [← List.append_assoc, eachEntry_append_singleton, ih, eachEntry_append_singleton,
        and_assoc]

theorem EachEntry.congr (h : EachEntry (fun before a => C before a ↔ D before a) history) :
    EachEntry C history ↔ EachEntry D history := by
  constructor
  · exact fun hC before a hp => (h before a hp).mp (hC before a hp)
  · exact fun hD before a hp => (h before a hp).mpr (hD before a hp)

theorem EachEntry.of_prefix (h : EachEntry C history) {start : List α}
    (hp : start.IsPrefix history) : EachEntry C start :=
  fun before a hb => h before a (hb.trans hp)

theorem EachEntry.of_split (h : EachEntry C history) {before after : List α}
    (hsplit : history = before ++ a :: after) : C before a :=
  h before a ⟨after, by rw [hsplit, List.append_assoc, List.singleton_append]⟩

theorem length_filter_le_one {q : α → Bool}
    (h : ∀ before a after, history = before ++ a :: after → q a → ∀ b ∈ before, ¬ q b) :
    (history.filter q).length ≤ 1 := by
  induction history using List.reverseRecOn with
  | nil => exact Nat.zero_le 1
  | append_singleton history a ih =>
      rw [List.filter_append]
      by_cases ha : q a
      · have hnone : history.filter q = [] := List.filter_eq_nil_iff.mpr (h history a [] rfl ha)
        rw [hnone, List.nil_append]
        exact List.length_filter_le _ _
      · have hskip : [a].filter q = [] := by simp [ha]
        rw [hskip, List.append_nil]
        apply ih
        intro before b after hsplit
        exact h before b (after ++ [a]) (by rw [hsplit, List.append_assoc, List.cons_append])

end Histories

end CatDect.Support
