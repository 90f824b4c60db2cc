import CatDect.ImageHandle.RegionSelection
import CatDect.Support.Interleaving
import Mathlib.Data.List.Chain

/-!
# The rate gate in front of the turret

`draw_result` calls `mqtt_guard_ps_set` for a cat or dog only if the gate lets it, and the
gate remembers of the last call nothing but the microseconds within its second.
`mainVisits_spec` reduces the gate of a whole run to the readings of the clock; the results
at the end say when it keeps two commands 300 ms apart and when it withholds one.
-/

namespace CatDect.ImageHandle

open CatDect.Support CatDect.Postprocess

/-! ## The log of a run -/

/-- A cat or dog that `draw_result` has processed, and whether it called
`mqtt_guard_ps_set` for it. -/
structure Visit where
  reading : Reading
  aimed : Bool

def visitEntry (readings : ℕ → Reading) (w : DrawState × List Visit)
    (entry : ObjectDetectResult × ℕ) : DrawState × List Visit :=
  let st := drawEntry readings w.1 entry
  (st,
    if IsCat entry.1 then
      w.2 ++ [⟨readings entry.2, decide (w.1.aims.length < st.aims.length)⟩]
    else w.2)

def visitLoop (g : Globals) (results : ObjectDetectResultList) (readings : ℕ → Reading)
    (visits : List Visit) : DrawState × List Visit :=
  results.reported.zipIdx.foldl (visitEntry readings)
    ({ globals := g, haveCat := 0, haveTarget := 0, printed := [], aims := [] }, visits)

def visitFrame (w : Globals × List Visit) (frame : FrameInput) :
    Option (Globals × List Visit) := do
  let (g, _) ← pollingdecetbox w.1
  let st ← drawResult g frame.results frame.readings
  some (st.globals, (visitLoop g frame.results frame.readings w.2).2)

def mainVisits (frames : List FrameInput) : Option (Globals × List Visit) :=
  frames.foldlM visitFrame (imageHanldeInit .static, [])

def catReadings (frame : FrameInput) : List Reading :=
  (frame.results.reported.zipIdx.filter fun entry => IsCat entry.1).map
    fun entry => frame.readings entry.2

/-! ## The gate -/

def aimed (visits : List Visit) : List Reading :=
  (visits.filter fun v => v.aimed).map fun v => v.reading

def lastAim (visits : List Visit) : Option Reading := (aimed visits).getLast?

def usecondLe (visits : List Visit) : ℤ :=
  match lastAim visits with
  | some r => r.tvUsec % 2 ^ 32
  | none => 0

/-- Every call was made or left out as the gate said. -/
def Gated (visits : List Visit) : Prop :=
  EachEntry (fun before v => (v.aimed = true ↔ aimDue (usecondLe before) v.reading)) visits

theorem lastAim_append_aimed (visits : List Visit) (r : Reading) :
    lastAim (visits ++ [⟨r, true⟩]) = some r := by
  simp [lastAim, aimed]

theorem lastAim_append_quiet (visits : List Visit) (r : Reading) :
    lastAim (visits ++ [⟨r, false⟩]) = lastAim visits := by
  simp [lastAim, aimed]

section Entry

variable {readings : ℕ → Reading} {st : DrawState} {e : ObjectDetectResult} {i : ℕ}

theorem drawEntry_usecondLe (he : ¬ IsCat e) :
    (drawEntry readings st (e, i)).globals.usecondLe = st.globals.usecondLe := by
  have hcls : ¬ (e.clsId = 15 ∨ e.clsId = 16) := he
  simp only [drawEntry, if_neg hcls]
  split_ifs <;> rfl

theorem DrawState.aim_of_due {r : Reading} (h : aimDue st.globals.usecondLe r) :
    (st.aim r).aims.length = st.aims.length + 1 ∧
      (st.aim r).globals.usecondLe = r.tvUsec % 2 ^ 32 := by
  rw [DrawState.aim, if_pos h]
  exact ⟨List.length_append, rfl⟩

theorem DrawState.aim_of_not_due {r : Reading} (h : ¬ aimDue st.globals.usecondLe r) :
    st.aim r = st := if_neg h

end Entry

structure Logged (rs : List Reading) (usecond : ℤ) (visits : List Visit) : Prop where
  readings_eq : visits.map (fun v => v.reading) = rs
  gated : Gated visits
  usecondLe_eq : usecond = usecondLe visits

theorem logged_nil : Logged [] 0 [] := ⟨rfl, eachEntry_nil, rfl⟩

section Logged

variable {rs : List Reading} {usecond : ℤ} {visits : List Visit} {r : Reading}

theorem Logged.aim (h : Logged rs usecond visits) (hdue : aimDue usecond r) :
    Logged (rs ++ [r]) (r.tvUsec % 2 ^ 32) (visits ++ [⟨r, true⟩]) where
  readings_eq := by rw [List.map_append, h.readings_eq, List.map_singleton]
  gated := by
    apply eachEntry_append_singleton.mpr ⟨h.gated, _⟩
    rw [← h.usecondLe_eq]
    exact iff_of_true rfl hdue
  usecondLe_eq := by rw [usecondLe, lastAim_append_aimed]

theorem Logged.keepQuiet (h : Logged rs usecond visits) (hdue : ¬ aimDue usecond r) :
    Logged (rs ++ [r]) usecond (visits ++ [⟨r, false⟩]) where
  readings_eq := by rw [List.map_append, h.readings_eq, List.map_singleton]
  gated := by
    apply eachEntry_append_singleton.mpr ⟨h.gated, _⟩
    rw [← h.usecondLe_eq]
    exact iff_of_false Bool.false_ne_true hdue
  usecondLe_eq := by rw [usecondLe, lastAim_append_quiet, h.usecondLe_eq, usecondLe]

theorem Logged.entry {readings : ℕ → Reading} {st : DrawState}
    (h : Logged rs st.globals.usecondLe visits) (entry : ObjectDetectResult × ℕ) :
    let w := visitEntry readings (st, visits) entry
    Logged (rs ++ if IsCat entry.1 then [readings entry.2] else []) w.1.globals.usecondLe w.2 := by
  obtain ⟨e, i⟩ := entry
  by_cases he : IsCat e
  · set shown := (st.locate e).sawCat.target with hshown
    have hstep : drawEntry readings st (e, i) = shown.aim (readings i) := drawEntry_cat he
    have haims : shown.aims = st.aims := rfl
    have hu : Logged rs shown.globals.usecondLe visits := h
    simp only [visitEntry, if_pos he, hstep]
    by_cases hdue : aimDue shown.globals.usecondLe (readings i)
    · obtain ⟨hlen, husec⟩ := DrawState.aim_of_due hdue
      rw [husec, hlen, haims, decide_eq_true (Nat.lt_succ_self _)]
      exact hu.aim hdue
    · rw [DrawState.aim_of_not_due hdue, haims, decide_eq_false (Nat.lt_irrefl _)]
      exact hu.keepQuiet hdue
  · simp only [visitEntry, if_neg he, List.append_nil, drawEntry_usecondLe he]
    exact h

theorem visitLoop_spec {g : Globals} (h : Logged rs g.usecondLe visits) (frame : FrameInput) :
    (visitLoop g frame.results frame.readings visits).1 =
        drawLoop g frame.results frame.readings ∧
      Logged (rs ++ catReadings frame)
        (drawLoop g frame.results frame.readings).globals.usecondLe
        (visitLoop g frame.results frame.readings visits).2 := by
  let init : DrawState := { globals := g, haveCat := 0, haveTarget := 0, printed := [], aims := [] }
  have hrule := foldl_list_rule (l := frame.results.reported.zipIdx)
    (f := visitEntry frame.readings) (s := (init, visits))
    (fun done w => w.1 = done.foldl (drawEntry frame.readings) init ∧
      Logged (rs ++ (done.filter fun entry => IsCat entry.1).map fun entry =>
        frame.readings entry.2) w.1.globals.usecondLe w.2)
    ⟨rfl, by simpa using h⟩ ?_
  · obtain ⟨hst, hlog⟩ := hrule
    rw [hst] at hlog
    exact ⟨hst, hlog⟩
  · rintro done entry ⟨st, log⟩ ⟨hst, hlog⟩
    constructor
    · rw [List.foldl_append, ← hst]
      rfl
    · by_cases he : IsCat entry.1
      · simpa [he] using hlog.entry entry
      · simpa [he] using hlog.entry entry

end Logged

/-- **The log of a run.**  It lists the readings taken for the cats and dogs in their order,
each with a call exactly if the gate was open. -/
theorem mainVisits_spec (frames : List FrameInput) :
    ∃ g visits, mainVisits frames = some (g, visits) ∧ mainFrames frames = some g ∧
      Logged (frames.flatMap catReadings) g.usecondLe visits := by
  have hrule := foldlM_list_rule (l := frames) (f := visitFrame)
    (s := (imageHanldeInit .static, []))
    (fun done w => done.foldlM mainFrame (imageHanldeInit .static) = some w.1 ∧
      Configured w.1 ∧ Logged (done.flatMap catReadings) w.1.usecondLe w.2)
    ⟨rfl, configured_init, logged_nil⟩ ?_
  · obtain ⟨⟨g, visits⟩, hrun, hsame, -, hlog⟩ := hrule
    exact ⟨g, visits, hrun, hsame, hlog⟩
  · rintro done frame rest ⟨g, visits⟩ - ⟨hsame, hg, hlog⟩
    obtain ⟨g₁, hcrop, hg₁, -, -, -, -, -, husec₁⟩ := pollingdecetbox_spec hg
    obtain ⟨st, hdraw, hst, -⟩ := drawResult_spec hg₁.toConfigured frame.results frame.readings
    have hlog₁ : Logged (done.flatMap catReadings) g₁.usecondLe visits := husec₁ ▸ hlog
    obtain ⟨-, hloop⟩ := visitLoop_spec hlog₁ frame
    obtain ⟨-, -, husec, -⟩ := drawResult_loop hdraw
    refine ⟨(st.globals, (visitLoop g₁ frame.results frame.readings visits).2), ?_, ?_, hst, ?_⟩
    · simp only [visitFrame, hcrop, hdraw, Option.bind_eq_bind, Option.bind_some]
    · rw [List.foldlM_append, hsame]
      simp only [mainFrame, hcrop, hdraw, Option.bind_eq_bind, Option.bind_some, List.foldlM_cons,
        List.foldlM_nil]
      rfl
    · rw [List.flatMap_append, List.flatMap_singleton, husec]
      exact hloop

/-! ## The gate against the clock -/

def Reading.wall (r : Reading) : ℤ := r.tvSec * 1000000 + r.tvUsec

structure ClockRuns (rs : List Reading) : Prop where
  usec_mem : ∀ r ∈ rs, 0 ≤ r.tvUsec ∧ r.tvUsec < 1000000
  nondecreasing : rs.Pairwise fun a b => a.wall ≤ b.wall

theorem aimDue_iff {u : ℤ} {r : Reading} (hu : 0 ≤ u ∧ u < 1000000)
    (hr : 0 ≤ r.tvUsec ∧ r.tvUsec < 1000000) :
    aimDue u r ↔ (u + 300000 ≤ r.tvUsec ∨ r.tvUsec < u) ∧ r.teasingSw ≠ 0 := by
  unfold aimDue
  apply and_congr_left
  intro _
  by_cases hlt : r.tvUsec < u
  · have hwrap : (r.tvUsec - u) % 2 ^ 32 = r.tvUsec - u + 2 ^ 32 := by omega
    omega
  · have hsame : (r.tvUsec - u) % 2 ^ 32 = r.tvUsec - u :=
      Int.emod_eq_of_lt (by omega) (by omega)
    omega

theorem lastAim_mem {visits : List Visit} {a : Reading} (h : lastAim visits = some a) :
    a ∈ visits.map fun v => v.reading := by
  obtain ⟨v, hv, rfl⟩ := List.mem_map.mp (List.mem_of_getLast? h)
  exact List.mem_map_of_mem (List.mem_filter.mp hv).1

section Clock

variable {visits before : List Visit} {v : Visit} {a : Reading}

theorem ClockRuns.visit_mem (h : ClockRuns (visits.map fun v => v.reading))
    (hp : (before ++ [v]).IsPrefix visits) :
    0 ≤ v.reading.tvUsec ∧ v.reading.tvUsec < 1000000 := by
  apply h.usec_mem
  exact List.mem_map_of_mem (hp.subset (by simp))

theorem ClockRuns.lastAim_mem (h : ClockRuns (visits.map fun v => v.reading))
    (hp : (before ++ [v]).IsPrefix visits) (ha : lastAim before = some a) :
    0 ≤ a.tvUsec ∧ a.tvUsec < 1000000 := by
  apply h.usec_mem
  apply (hp.map _).subset
  rw [List.map_append]
  exact List.mem_append_left _ (ImageHandle.lastAim_mem ha)

theorem ClockRuns.lastAim_le (h : ClockRuns (visits.map fun v => v.reading))
    (hp : (before ++ [v]).IsPrefix visits) (ha : lastAim before = some a) :
    a.wall ≤ v.reading.wall := by
  have hsorted := h.nondecreasing.sublist (hp.map _).sublist
  rw [List.map_append] at hsorted
  exact (List.pairwise_append.mp hsorted).2.2 a (ImageHandle.lastAim_mem ha) v.reading (by simp)

theorem ClockRuns.usecondLe_of_some (h : ClockRuns (visits.map fun v => v.reading))
    (hp : (before ++ [v]).IsPrefix visits) (ha : lastAim before = some a) :
    usecondLe before = a.tvUsec := by
  have := h.lastAim_mem hp ha
  rw [usecondLe, ha]
  exact Int.emod_eq_of_lt (by omega) (by omega)

end Clock

def catAt (tvSec tvUsec : ℤ) : FrameInput where
  results := catInView
  readings := fun _ => ⟨tvSec, tvUsec, 1⟩

theorem clockRuns_two {s u s' u' : ℤ} (hu : 0 ≤ u ∧ u < 1000000) (hu' : 0 ≤ u' ∧ u' < 1000000)
    (hle : s * 1000000 + u ≤ s' * 1000000 + u') :
    ClockRuns ([catAt s u, catAt s' u'].flatMap catReadings) := by
  have hreadings : [catAt s u, catAt s' u'].flatMap catReadings = [⟨s, u, 1⟩, ⟨s', u', 1⟩] := rfl
  rw [hreadings]
  constructor
  · intro r hr
    rcases List.mem_pair.mp hr with rfl | rfl
    · exact hu
    · exact hu'
  · simpa [Reading.wall] using hle

/-! ## Two commands too close together -/

def SpacedApart (visits : List Visit) : Prop :=
  (aimed visits).IsChain fun a b => a.wall + 300000 ≤ b.wall

/-- The second of the last call is over, but not yet 300 ms. -/
def TooSoonInNextSecond (before : List Visit) (r : Reading) : Prop :=
  ∃ a, lastAim before = some a ∧ a.tvSec < r.tvSec ∧ r.wall < a.wall + 300000

theorem spacedApart_iff_each (visits : List Visit) :
    SpacedApart visits ↔ EachEntry (fun before v => v.aimed = true →
      ∀ a, lastAim before = some a → a.wall + 300000 ≤ v.reading.wall) visits := by
  induction visits using List.reverseRecOn with
  | nil => exact iff_of_true List.IsChain.nil eachEntry_nil
  | append_singleton visits v ih =>
      rw [eachEntry_append_singleton, ← ih]
      obtain ⟨r, hit⟩ := v
      cases hit with
      | false =>
          have hsame : aimed (visits ++ [⟨r, false⟩]) = aimed visits := by simp [aimed]
          simp [SpacedApart, hsame]
      | true =>
          have hnext : aimed (visits ++ [⟨r, true⟩]) = aimed visits ++ [r] := by simp [aimed]
          rw [SpacedApart, hnext, List.isChain_append]
          simp [SpacedApart, lastAim]

/-- **When two commands are kept 300 ms apart.**  In every run exactly if no cat or dog is
processed with the switch on less than 300 ms after the last call but in the next second of
the clock. -/
theorem spacedApart_iff (frames : List FrameInput)
    (hclock : ClockRuns (frames.flatMap catReadings)) :
    ∃ g visits, mainVisits frames = some (g, visits) ∧
      (SpacedApart visits ↔ EachEntry (fun before v =>
        v.reading.teasingSw ≠ 0 → ¬ TooSoonInNextSecond before v.reading) visits) := by
  obtain ⟨g, visits, hrun, -, hlog⟩ := mainVisits_spec frames
  refine ⟨g, visits, hrun, ?_⟩
  rw [← hlog.readings_eq] at hclock
  rw [spacedApart_iff_each]
  apply EachEntry.congr
  intro before v hp
  have hv := hclock.visit_mem hp
  have hgate : v.aimed = true ↔ aimDue (usecondLe before) v.reading := hlog.gated before v hp
  rw [hgate]
  constructor
  · rintro hspaced hsw ⟨a, ha, hsec, hsoon⟩
    -- the microseconds have wrapped, so the gate is open
    have hle := hclock.lastAim_mem hp ha
    have hopen : aimDue (usecondLe before) v.reading := by
      rw [hclock.usecondLe_of_some hp ha, aimDue_iff hle hv]
      unfold Reading.wall at hsoon
      exact ⟨.inr (by omega), hsw⟩
    have := hspaced hopen a ha
    omega
  · intro hcond hopen a ha
    have hle := hclock.lastAim_mem hp ha
    have hmono := hclock.lastAim_le hp ha
    rw [hclock.usecondLe_of_some hp ha, aimDue_iff hle hv] at hopen
    obtain ⟨hgap, hsw⟩ := hopen
    by_contra hsoon
    refine hcond hsw ⟨a, ha, ?_, not_le.mp hsoon⟩
    unfold Reading.wall at hmono hsoon
    omega

/-- Two calls one microsecond apart, at the turn of a second. -/
theorem two_commands_at_once :
    ClockRuns ([catAt 0 999999, catAt 1 0].flatMap catReadings) ∧
      ∃ g visits, mainVisits [catAt 0 999999, catAt 1 0] = some (g, visits) ∧
        (∀ v ∈ visits, v.reading.teasingSw ≠ 0) ∧ ¬ SpacedApart visits := by
  refine ⟨clockRuns_two (by decide) (by decide) (by decide), _,
    [⟨⟨0, 999999, 1⟩, true⟩, ⟨⟨1, 0, 1⟩, true⟩], rfl, by decide, ?_⟩
  intro h
  have hgap := List.isChain_pair.mp h
  exact absurd hgap (by decide : ¬ (0 * 1000000 + 999999 : ℤ) + 300000 ≤ 1 * 1000000 + 0)

theorem spacedApart_iff_two_cats :
    ClockRuns ([catAt 0 500000, catAt 1 0].flatMap catReadings) ∧
      ∃ g visits, mainVisits [catAt 0 500000, catAt 1 0] = some (g, visits) ∧
        (SpacedApart visits ↔ EachEntry (fun before v =>
          v.reading.teasingSw ≠ 0 → ¬ TooSoonInNextSecond before v.reading) visits) :=
  ⟨clockRuns_two (by decide) (by decide) (by decide),
    spacedApart_iff _ (clockRuns_two (by decide) (by decide) (by decide))⟩

/-! ## A command withheld -/

def Waited (started : ℤ) (before : List Visit) (r : Reading) : Prop :=
  match lastAim before with
  | some a => a.wall + 300000 ≤ r.wall
  | none => started + 300000 ≤ r.wall

/-- No cat or dog is passed over with the switch on once 300 ms have passed. -/
def NotWithheld (started : ℤ) (visits : List Visit) : Prop :=
  EachEntry (fun before v =>
    v.reading.teasingSw ≠ 0 → Waited started before v.reading → v.aimed = true) visits

/-- A later second has come, but within it the clock stands less than 300 ms after the
last call; before the first call, less than 300 ms after the full second. -/
def LooksTooSoon (started : ℤ) (before : List Visit) (r : Reading) : Prop :=
  match lastAim before with
  | some a => a.tvSec < r.tvSec ∧ a.tvUsec ≤ r.tvUsec ∧ r.tvUsec < a.tvUsec + 300000
  | none => started + 300000 ≤ r.wall ∧ r.tvUsec < 300000

/-- **When no command is withheld.**  In every run exactly if no cat or dog is processed
with the switch on at a time of a later second that looks less than 300 ms after the last
call. -/
theorem notWithheld_iff (frames : List FrameInput) (started : ℤ)
    (hclock : ClockRuns (frames.flatMap catReadings)) :
    ∃ g visits, mainVisits frames = some (g, visits) ∧
      (NotWithheld started visits ↔ EachEntry (fun before v =>
        v.reading.teasingSw ≠ 0 → ¬ LooksTooSoon started before v.reading) visits) := by
  obtain ⟨g, visits, hrun, -, hlog⟩ := mainVisits_spec frames
  refine ⟨g, visits, hrun, ?_⟩
  rw [← hlog.readings_eq] at hclock
  apply EachEntry.congr
  intro before v hp
  have hv := hclock.visit_mem hp
  have hgate : v.aimed = true ↔ aimDue (usecondLe before) v.reading := hlog.gated before v hp
  rw [hgate]
  apply imp_congr_right
  intro hsw
  unfold Waited LooksTooSoon
  cases ha : lastAim before with
  | none =>
      have hzero : usecondLe before = 0 := by rw [usecondLe, ha]
      rw [hzero, aimDue_iff (by omega) hv]
      constructor
      · rintro hdue ⟨hwaited, hsoon⟩
        have := (hdue hwaited).1
        omega
      · intro hcond hwaited
        exact ⟨by omega, hsw⟩
  | some a =>
      have hle := hclock.lastAim_mem hp ha
      have hmono := hclock.lastAim_le hp ha
      rw [hclock.usecondLe_of_some hp ha, aimDue_iff hle hv]
      unfold Reading.wall at *
      constructor
      · rintro hdue ⟨hlater, hge, hsoon⟩
        have := (hdue (by omega)).1
        omega
      · intro hcond hwaited
        exact ⟨by omega, hsw⟩

theorem cat_passed_over :
    ClockRuns ([catAt 0 500000, catAt 1 600000].flatMap catReadings) ∧
      ∃ g visits, mainVisits [catAt 0 500000, catAt 1 600000] = some (g, visits) ∧
        ¬ NotWithheld 0 visits := by
  refine ⟨clockRuns_two (by decide) (by decide) (by decide), _,
    [⟨⟨0, 500000, 1⟩, true⟩, ⟨⟨1, 600000, 1⟩, false⟩], rfl, ?_⟩
  intro h
  have haimed := h [⟨⟨0, 500000, 1⟩, true⟩] ⟨⟨1, 600000, 1⟩, false⟩ (List.prefix_refl _) (by decide)
    (by decide : (0 * 1000000 + 500000 : ℤ) + 300000 ≤ 1 * 1000000 + 600000)
  exact Bool.false_ne_true haimed

theorem notWithheld_iff_two_cats :
    ClockRuns ([catAt 0 500000, catAt 1 900000].flatMap catReadings) ∧
      ∃ g visits, mainVisits [catAt 0 500000, catAt 1 900000] = some (g, visits) ∧
        (NotWithheld 0 visits ↔ EachEntry (fun before v =>
          v.reading.teasingSw ≠ 0 → ¬ LooksTooSoon 0 before v.reading) visits) :=
  ⟨clockRuns_two (by decide) (by decide) (by decide),
    notWithheld_iff _ 0 (clockRuns_two (by decide) (by decide) (by decide))⟩

end CatDect.ImageHandle
