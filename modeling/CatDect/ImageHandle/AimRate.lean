import CatDect.ImageHandle.AimGate

/-!
# How often the turret is aimed

The gate does not keep two commands 300 ms apart.  It still bounds their number, four in a
second of the clock, and it never stays shut for long: if cats are processed often enough,
the next command comes 300 ms and one such interval after the last at the latest.
-/

namespace CatDect.ImageHandle

open CatDect.Support CatDect.Postprocess

/-! ## Counting -/

theorem length_le_of_increasing {α : Type} {g : α → ℤ} {l : List α} {lo hi : ℤ}
    (hincreasing : l.Pairwise fun a b => g a < g b) (hbounds : ∀ a ∈ l, lo ≤ g a ∧ g a < hi)
    (hle : lo ≤ hi) : (l.length : ℤ) ≤ hi - lo := by
  induction l generalizing lo with
  | nil => exact Int.sub_nonneg_of_le hle
  | cons a l ih =>
      obtain ⟨hlater, hrest⟩ := List.pairwise_cons.mp hincreasing
      obtain ⟨halo, hahi⟩ := hbounds a List.mem_cons_self
      have hnext : ∀ b ∈ l, g a + 1 ≤ g b ∧ g b < hi := fun b hb =>
        ⟨hlater b hb, (hbounds b (List.mem_cons_of_mem a hb)).2⟩
      have hlen := ih hrest hnext (by omega)
      rw [List.length_cons]
      push_cast
      omega

/-! ## Four commands in a second -/

def LaterAim (a b : Reading) : Prop :=
  a.tvSec < b.tvSec ∨ a.tvSec = b.tvSec ∧ a.tvUsec + 300000 ≤ b.tvUsec

def Reading.stretch (r : Reading) : ℤ := 4 * r.tvSec + r.tvUsec / 300000

section Rate

variable {visits before : List Visit} {a b : Reading}

theorem stretch_lt (ha : a.tvUsec < 1000000) (hb : 0 ≤ b.tvUsec) (h : LaterAim a b) :
    a.stretch < b.stretch := by
  have hfour : a.tvUsec / 300000 < 4 := by omega
  have hquotient : 0 ≤ b.tvUsec / 300000 := Int.ediv_nonneg hb (by decide)
  unfold Reading.stretch
  rcases h with hsec | ⟨hsec, husec⟩
  · omega
  · omega

theorem LaterAim.trans {c : Reading} (hab : LaterAim a b) (hbc : LaterAim b c) :
    LaterAim a c := by
  unfold LaterAim at *
  omega

theorem aimed_append_singleton (before : List Visit) (v : Visit) :
    aimed (before ++ [v]) = aimed before ++ if v.aimed then [v.reading] else [] := by
  obtain ⟨r, hit⟩ := v
  cases hit with
  | true => simp [aimed]
  | false => simp [aimed]

theorem mem_aimed (h : a ∈ aimed visits) : a ∈ visits.map fun v => v.reading := by
  obtain ⟨v, hv, rfl⟩ := List.mem_map.mp h
  exact List.mem_map_of_mem (List.mem_filter.mp hv).1

theorem laterAim_of_due (hclock : ClockRuns (visits.map fun v => v.reading)) {v : Visit}
    (hp : (before ++ [v]).IsPrefix visits) (ha : lastAim before = some a)
    (hdue : aimDue (usecondLe before) v.reading) : LaterAim a v.reading := by
  have hle := hclock.lastAim_mem hp ha
  have hmono := hclock.lastAim_le hp ha
  have hv := hclock.visit_mem hp
  rw [hclock.usecondLe_of_some hp ha, aimDue_iff hle hv] at hdue
  unfold Reading.wall at hmono
  unfold LaterAim
  omega

theorem aims_later {usecond : ℤ} {rs : List Reading} (hlog : Logged rs usecond visits)
    (hclock : ClockRuns rs) : (aimed visits).Pairwise LaterAim := by
  rw [← hlog.readings_eq] at hclock
  have hgated := hlog.gated
  have hall : ∀ start, start.IsPrefix visits → (aimed start).Pairwise LaterAim := by
    intro start hstart
    induction start using List.reverseRecOn with
    | nil => exact List.Pairwise.nil
    | append_singleton before v ih =>
        have hbefore := ih ((List.prefix_append before [v]).trans hstart)
        rw [aimed_append_singleton]
        cases hv : v.aimed with
        | false =>
            rw [if_neg Bool.false_ne_true, List.append_nil]
            exact hbefore
        | true =>
            have hdue := (hgated before v hstart).mp hv
            rw [if_pos rfl]
            refine List.pairwise_append.mpr ⟨hbefore, List.pairwise_singleton _ _, ?_⟩
            intro c hc d hd
            rw [List.mem_singleton.mp hd]
            -- the last command before is later than `c` or is `c`
            rcases List.eq_nil_or_concat' (aimed before) with hnil | ⟨init, a, hinit⟩
            · rw [hnil] at hc
              exact absurd hc List.not_mem_nil
            · have ha : lastAim before = some a := by rw [lastAim, hinit, List.getLast?_concat]
              have hlater := laterAim_of_due hclock hstart ha hdue
              rw [hinit] at hc hbefore
              rcases List.mem_append.mp hc with hc | hc
              · have hca := (List.pairwise_append.mp hbefore).2.2 c hc a (List.mem_singleton_self a)
                exact hca.trans hlater
              · rw [List.mem_singleton.mp hc]
                exact hlater
  exact hall visits (List.prefix_refl visits)

end Rate

/-- **Four commands in a second.**  In every run and in any `n` consecutive seconds of the clock
the turret is aimed at most `4 * n` times. -/
theorem four_commands_a_second (frames : List FrameInput)
    (hclock : ClockRuns (frames.flatMap catReadings)) (second : ℤ) (n : ℕ) :
    ∃ g visits, mainVisits frames = some (g, visits) ∧
      ((aimed visits).filter fun r =>
        decide (second ≤ r.tvSec ∧ r.tvSec < second + n)).length ≤ 4 * n := by
  obtain ⟨g, visits, hrun, -, hlog⟩ := mainVisits_spec frames
  refine ⟨g, visits, hrun, ?_⟩
  have hlater := (aims_later hlog hclock).filter fun r =>
    decide (second ≤ r.tvSec ∧ r.tvSec < second + n)
  have husec : ∀ r ∈ aimed visits, 0 ≤ r.tvUsec ∧ r.tvUsec < 1000000 := fun r hr =>
    hclock.usec_mem r (by rw [← hlog.readings_eq]; exact mem_aimed hr)
  have hbounds : ∀ r ∈ (aimed visits).filter fun r =>
      decide (second ≤ r.tvSec ∧ r.tvSec < second + n),
      4 * second ≤ r.stretch ∧ r.stretch < 4 * (second + n) := by
    intro r hr
    obtain ⟨hmem, hsec⟩ := List.mem_filter.mp hr
    have hr := husec r hmem
    have hsec := of_decide_eq_true hsec
    unfold Reading.stretch
    omega
  have hincreasing := hlater.imp_of_mem fun {a b} ha hb hab =>
    stretch_lt (husec a (List.mem_filter.mp ha).1).2 (husec b (List.mem_filter.mp hb).1).1 hab
  have hlen := length_le_of_increasing hincreasing hbounds (by omega)
  omega

def sixCats : List FrameInput :=
  [catAt 0 999999, catAt 1 0, catAt 1 300000, catAt 1 500000, catAt 1 600000, catAt 1 900000]

theorem clockRuns_sixCats : ClockRuns (sixCats.flatMap catReadings) where
  usec_mem := by decide
  nondecreasing := by decide

theorem four_commands_a_second_sixCats :
    ∃ g visits, mainVisits sixCats = some (g, visits) ∧
      ((aimed visits).filter fun r =>
        decide (1 ≤ r.tvSec ∧ r.tvSec < (1 : ℤ) + (1 : ℕ))).length ≤ 4 :=
  four_commands_a_second sixCats clockRuns_sixCats 1 1

/-! ## The next command -/

/-- Cats are processed with the switch on, one `interval` after another at the latest. -/
structure Often (interval : ℤ) (rs : List Reading) : Prop where
  switchedOn : ∀ r ∈ rs, r.teasingSw ≠ 0
  close : rs.IsChain fun a b => b.wall ≤ a.wall + interval

/-- The last command was not longer ago, or the first cat if there was no command yet. -/
def Prompt (limit : ℤ) (before : List Visit) (r : Reading) : Prop :=
  match lastAim before with
  | some a => r.wall ≤ a.wall + limit
  | none => ∀ v ∈ before.head?, r.wall ≤ v.reading.wall + limit

/-- In the second of the last command the clock has not gone on by 300 ms; before the first
command, in the second of the first cat it has not come to 300 ms. -/
def GateShut (before : List Visit) (r : Reading) : Prop :=
  match lastAim before with
  | some a => r.tvSec = a.tvSec ∧ r.tvUsec < a.tvUsec + 300000
  | none => ∀ v ∈ before.head?, r.tvSec = v.reading.tvSec ∧ r.tvUsec < 300000

section Often

variable {visits before : List Visit} {v p : Visit} {interval : ℤ}

theorem lastAim_append_singleton (before : List Visit) (v : Visit) :
    lastAim (before ++ [v]) = if v.aimed then some v.reading else lastAim before := by
  obtain ⟨r, hit⟩ := v
  cases hit with
  | true => exact lastAim_append_aimed before r
  | false => exact lastAim_append_quiet before r

theorem Often.wall_le (h : Often interval (visits.map fun v => v.reading))
    (hp : (before ++ [p] ++ [v]).IsPrefix visits) :
    v.reading.wall ≤ p.reading.wall + interval := by
  obtain ⟨after, hafter⟩ := hp.map fun v => v.reading
  have hclose := h.close
  rw [← hafter, List.map_append, List.map_append, List.append_assoc, List.append_assoc,
    List.isChain_append] at hclose
  exact (List.isChain_cons_cons.mp hclose.2.1).1

theorem ClockRuns.first_le (h : ClockRuns (visits.map fun v => v.reading))
    (hp : (before ++ [v]).IsPrefix visits) (hfirst : p ∈ before.head?) :
    p.reading.wall ≤ v.reading.wall ∧ 0 ≤ p.reading.tvUsec := by
  have hmem : p ∈ before := List.mem_of_mem_head? hfirst
  have hsorted := h.nondecreasing.sublist (hp.map _).sublist
  rw [List.map_append] at hsorted
  refine ⟨(List.pairwise_append.mp hsorted).2.2 p.reading (List.mem_map_of_mem hmem) v.reading
    (by simp), (h.usec_mem p.reading ?_).1⟩
  exact List.mem_map_of_mem (hp.subset (List.mem_append_left [v] hmem))

theorem gateShut_of_quiet (hgated : Gated visits)
    (hclock : ClockRuns (visits.map fun v => v.reading))
    (hoften : Often interval (visits.map fun v => v.reading)) (hinterval : interval ≤ 700000)
    (hstart : (before ++ [v]).IsPrefix visits)
    (hlast : ∀ p ∈ before.getLast?, GateShut before p.reading) (hquiet : v.aimed = false) :
    GateShut (before ++ [v]) v.reading := by
  have hv := hclock.visit_mem hstart
  have hon : v.reading.teasingSw ≠ 0 :=
    hoften.switchedOn v.reading (List.mem_map_of_mem (hstart.subset (by simp)))
  have hshut : ¬aimDue (usecondLe before) v.reading := fun hdue => by
    rw [(hgated before v hstart).mpr hdue] at hquiet
    exact absurd hquiet.symm Bool.false_ne_true
  unfold GateShut
  rw [lastAim_append_singleton, hquiet, if_neg Bool.false_ne_true]
  cases ha : lastAim before with
  | some a =>
      have hle := hclock.lastAim_mem hstart ha
      have hmono := hclock.lastAim_le hstart ha
      rw [hclock.usecondLe_of_some hstart ha, aimDue_iff hle hv] at hshut
      rcases List.eq_nil_or_concat' before with rfl | ⟨init, p, rfl⟩
      · exact nomatch ha
      · have hp := hlast p (by rw [List.getLast?_concat]; rfl)
        have hwall := hoften.wall_le hstart
        unfold GateShut at hp
        rw [ha] at hp
        unfold Reading.wall at hmono hwall
        dsimp only at hp ⊢
        omega
  | none =>
      have hzero : usecondLe before = 0 := by rw [usecondLe, ha]
      rw [hzero, aimDue_iff (by omega) hv] at hshut
      intro w hw
      rcases List.eq_nil_or_concat' before with rfl | ⟨init, p, rfl⟩
      · obtain rfl := Option.some.inj hw
        omega
      · have hfirst : w ∈ (init ++ [p]).head? := by
          rw [List.head?_append_of_ne_nil _ (List.concat_ne_nil _ _)] at hw
          exact hw
        have hp := hlast p (by rw [List.getLast?_concat]; rfl)
        have hwall := hoften.wall_le hstart
        have hmono := hclock.first_le hstart hfirst
        unfold GateShut at hp
        rw [ha] at hp
        have hp := hp w hfirst
        unfold Reading.wall at hmono hwall
        omega

theorem gateShut_last (hgated : Gated visits)
    (hclock : ClockRuns (visits.map fun v => v.reading))
    (hoften : Often interval (visits.map fun v => v.reading)) (hinterval : interval ≤ 700000)
    (hstart : before.IsPrefix visits) : ∀ p ∈ before.getLast?, GateShut before p.reading := by
  induction before using List.reverseRecOn with
  | nil => exact nofun
  | append_singleton before v ih =>
      intro p hp
      rw [List.getLast?_concat] at hp
      obtain rfl := Option.some.inj hp
      cases hv : v.aimed with
      | true =>
          unfold GateShut
          rw [lastAim_append_singleton, hv, if_pos rfl]
          exact ⟨rfl, Int.lt_add_of_pos_right _ (by decide)⟩
      | false =>
          exact gateShut_of_quiet hgated hclock hoften hinterval hstart
            (ih ((List.prefix_append before [v]).trans hstart)) hv

theorem prompt_of_often (hgated : Gated visits)
    (hclock : ClockRuns (visits.map fun v => v.reading))
    (hoften : Often interval (visits.map fun v => v.reading)) (hinterval : interval ≤ 700000) :
    EachEntry (fun before v => Prompt (300000 + interval) before v.reading) visits := by
  intro before v hstart
  have hbefore := gateShut_last hgated hclock hoften hinterval
    ((List.prefix_append before [v]).trans hstart)
  unfold Prompt
  rcases List.eq_nil_or_concat' before with rfl | ⟨init, p, rfl⟩
  · exact nofun
  · have hp := hbefore p (by rw [List.getLast?_concat]; rfl)
    have hwall := hoften.wall_le hstart
    unfold GateShut at hp
    cases ha : lastAim (init ++ [p]) with
    | some a =>
        rw [ha] at hp
        unfold Reading.wall at hwall ⊢
        dsimp only at hp ⊢
        omega
    | none =>
        rw [ha] at hp
        intro w hw
        have hp := hp w hw
        have hfirst := hclock.first_le hstart hw
        unfold Reading.wall at hwall ⊢
        omega

end Often

/-- **The next command comes soon.**  In every run in which cats are processed with the switch
on, one interval of at most 700 ms after another, a command is never longer ago than 300 ms and
one interval when a cat is processed; nor is the first cat, as long as there is no command. -/
theorem next_command_soon (frames : List FrameInput) (interval : ℤ)
    (hclock : ClockRuns (frames.flatMap catReadings))
    (hoften : Often interval (frames.flatMap catReadings)) (hinterval : interval ≤ 700000) :
    ∃ g visits, mainVisits frames = some (g, visits) ∧
      EachEntry (fun before v => Prompt (300000 + interval) before v.reading) visits := by
  obtain ⟨g, visits, hrun, -, hlog⟩ := mainVisits_spec frames
  rw [← hlog.readings_eq] at hclock hoften
  exact ⟨g, visits, hrun, prompt_of_often hlog.gated hclock hoften hinterval⟩

theorem next_command_soon_sixCats :
    ∃ g visits, mainVisits sixCats = some (g, visits) ∧
      EachEntry (fun before v => Prompt (300000 + 300000) before v.reading) visits :=
  next_command_soon sixCats 300000 clockRuns_sixCats
    ⟨by decide, by decide⟩ (by decide)

end CatDect.ImageHandle
