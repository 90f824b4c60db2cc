import CatDect.ImageHandle.AimGate

/-!
# Cats before persons

`draw_result` tracks the last cat or dog of its list, and a person only if there is none;
it sends aim commands for cats and dogs only, for as many as the rate gate lets through.
`drawLoop_aims` reduces the commands to the cats and their readings, so that neither the
target nor the commands depend on anything else in the list.
-/

namespace CatDect.ImageHandle

open CatDect.Support CatDect.Postprocess

/-! ## What the gate lets through -/

abbrev CatVisit : Type := ObjectDetectResult × Reading

def visitsOf (readings : ℕ → Reading) (entries : List (ObjectDetectResult × ℕ)) : List CatVisit :=
  (entries.filter fun entry => IsCat entry.1).map fun entry => (entry.1, readings entry.2)

def cats (results : ObjectDetectResultList) : List ObjectDetectResult :=
  results.reported.filter fun e => IsCat e

def catVisits (results : ObjectDetectResultList) (readings : ℕ → Reading) : List CatVisit :=
  visitsOf readings results.reported.zipIdx

/-- Those at which the gate is open, the last call having been made at `usecondLe`. -/
def letThrough : ℤ → List CatVisit → List ObjectDetectResult
  | _, [] => []
  | usecondLe, (e, r) :: visits =>
      if aimDue usecondLe r then e :: letThrough (r.tvUsec % 2 ^ 32) visits
      else letThrough usecondLe visits

theorem letThrough_sublist (usecondLe : ℤ) (visits : List CatVisit) :
    (letThrough usecondLe visits).Sublist (visits.map Prod.fst) := by
  induction visits generalizing usecondLe with
  | nil => exact List.Sublist.refl _
  | cons visit visits ih =>
      obtain ⟨e, r⟩ := visit
      unfold letThrough
      split
      · exact (ih _).cons_cons e
      · exact (ih _).cons e

theorem catVisits_fst (results : ObjectDetectResultList) (readings : ℕ → Reading) :
    (catVisits results readings).map Prod.fst = cats results := by
  unfold catVisits visitsOf cats
  rw [List.map_map]
  conv_rhs => rw [← List.zipIdx_map_fst 0 results.reported]
  rw [List.filter_map]
  rfl

theorem catVisits_eq_zip (results : ObjectDetectResultList) (readings : ℕ → Reading) :
    catVisits results readings = (cats results).zip (catReadings ⟨results, readings⟩) := by
  have hsnd : (catVisits results readings).map Prod.snd = catReadings ⟨results, readings⟩ := by
    unfold catVisits visitsOf catReadings
    rw [List.map_map]
    rfl
  rw [← catVisits_fst results readings, ← hsnd, ← List.unzip_fst, ← List.unzip_snd,
    List.zip_unzip]

section Loop

variable {readings : ℕ → Reading} {st : DrawState} {e : ObjectDetectResult} {i : ℕ}

theorem drawEntry_sameMapping : SameMapping st.globals (drawEntry readings st (e, i)).globals := by
  by_cases he : IsCat e
  · rw [drawEntry_cat he]
    obtain ⟨hmanage, hret, -⟩ := (st.locate e).sawCat.target.aim_globals (readings i)
    constructor
    · rw [hmanage]
      rfl
    all_goals
      rw [hret]
      rfl
  · have hcls : ¬ (e.clsId = 15 ∨ e.clsId = 16) := he
    simp only [drawEntry, if_neg hcls]
    split_ifs
    · exact ⟨rfl, rfl, rfl, rfl, rfl⟩
    · exact ⟨rfl, rfl, rfl, rfl, rfl⟩
    · exact ⟨rfl, rfl, rfl, rfl, rfl⟩

theorem drawEntry_aims (he : ¬ IsCat e) : (drawEntry readings st (e, i)).aims = st.aims := by
  have hcls : ¬ (e.clsId = 15 ∨ e.clsId = 16) := he
  simp only [drawEntry, if_neg hcls]
  split_ifs <;> rfl

theorem foldl_drawEntry_aims (entries : List (ObjectDetectResult × ℕ)) (st : DrawState) :
    (entries.foldl (drawEntry readings) st).aims = st.aims ++
      (letThrough st.globals.usecondLe (visitsOf readings entries)).map
        fun e => mapBox st.globals e.box := by
  induction entries generalizing st with
  | nil => exact (List.append_nil _).symm
  | cons entry entries ih =>
      obtain ⟨e, i⟩ := entry
      have hbox : ∀ box, mapBox (drawEntry readings st (e, i)).globals box =
          mapBox st.globals box := fun box => drawEntry_sameMapping.mapBox_eq box
      rw [List.foldl_cons, ih]
      simp only [hbox]
      by_cases he : IsCat e
      · have hvisits : visitsOf readings ((e, i) :: entries) =
            (e, readings i) :: visitsOf readings entries := by
          simp [visitsOf, he]
        set shown := (st.locate e).sawCat.target with hshown
        have hsame : shown.globals.usecondLe = st.globals.usecondLe := rfl
        rw [hvisits, drawEntry_cat he, letThrough]
        by_cases hdue : aimDue shown.globals.usecondLe (readings i)
        · rw [← hsame, if_pos hdue, (DrawState.aim_of_due hdue).2]
          have haim : (shown.aim (readings i)).aims = st.aims ++ [mapBox st.globals e.box] := by
            rw [DrawState.aim, if_pos hdue]
            rfl
          rw [haim, List.map_cons, List.append_assoc]
          rfl
        · rw [← hsame, if_neg hdue, DrawState.aim_of_not_due hdue]
          rfl
      · have hvisits : visitsOf readings ((e, i) :: entries) = visitsOf readings entries := by
          simp [visitsOf, he]
        rw [hvisits, drawEntry_aims he, drawEntry_usecondLe he]

/-- **The commands of a call.**  One for each cat or dog that the gate lets through. -/
theorem drawLoop_aims (g : Globals) (results : ObjectDetectResultList)
    (readings : ℕ → Reading) :
    (drawLoop g results readings).aims =
      (letThrough g.usecondLe (catVisits results readings)).map fun e => mapBox g e.box :=
  foldl_drawEntry_aims _ _

end Loop

/-! ## The target of a call -/

def TargetIs (g : Globals) (e : ObjectDetectResult) (g' : Globals) : Prop :=
  g'.detectResult.targetSX = (mapBox g e.box).left ∧
    g'.detectResult.targetEX = (mapBox g e.box).right

def SameTarget (g g' : Globals) : Prop :=
  g'.detectResult.targetSX = g.detectResult.targetSX ∧
    g'.detectResult.targetEX = g.detectResult.targetEX

/-- A cat or dog if there is one, else a person if there is one, else what it was. -/
def TargetByPriority (g : Globals) (results : ObjectDetectResultList) (g' : Globals) : Prop :=
  (∃ e ∈ results.reported, IsCat e ∧ TargetIs g e g') ∨
    ((∀ e ∈ results.reported, ¬ IsCat e) ∧
      ∃ e ∈ results.reported, e.clsId = 0 ∧ TargetIs g e g') ∨
    ((∀ e ∈ results.reported, ¬ IsTarget e) ∧ SameTarget g g')

theorem targetEntry_of_cats {results : ObjectDetectResultList} (h : cats results ≠ []) :
    targetEntry results.reported = (cats results).getLast? := by
  obtain ⟨e, he⟩ := Option.ne_none_iff_exists'.mp (mt List.getLast?_eq_none_iff.mp h)
  unfold targetEntry
  rw [show (results.reported.filter fun e => IsCat e) = cats results from rfl, he]
  rfl

section Call

variable {g : Globals} {results : ObjectDetectResultList} {readings : ℕ → Reading}
  {st : DrawState}

theorem drawResult_target (h : drawResult g results readings = some st) :
    match targetEntry results.reported with
    | some e => TargetIs g e st.globals
    | none => SameTarget g st.globals := by
  obtain ⟨-, -, -, hs, he, -⟩ := drawResult_loop h
  have hloop := drawLoop_spec g results readings
  have hsx := hs.trans hloop.targetSX_eq
  have hex := he.trans hloop.targetEX_eq
  cases htarget : targetEntry results.reported with
  | none =>
      rw [htarget] at hsx hex
      exact ⟨hsx, hex⟩
  | some e =>
      rw [htarget] at hsx hex
      exact ⟨hsx, hex⟩

theorem drawResult_byPriority (h : drawResult g results readings = some st) :
    TargetByPriority g results st.globals := by
  have htarget := drawResult_target h
  by_cases hcats : cats results = []
  · have hnone : ∀ e ∈ results.reported, ¬ IsCat e := by
      simpa [cats] using hcats
    have hentry : targetEntry results.reported =
        (results.reported.filter fun e => e.clsId = 0).getLast? := by
      unfold targetEntry
      rw [show (results.reported.filter fun e => IsCat e) = [] from hcats]
      rfl
    rw [hentry] at htarget
    cases hperson : (results.reported.filter fun e => e.clsId = 0).getLast? with
    | none =>
        rw [hperson] at htarget
        have hempty := List.getLast?_eq_none_iff.mp hperson
        refine .inr (.inr ⟨?_, htarget⟩)
        rintro e he (hcls | hcat)
        · have hmem : e ∈ results.reported.filter fun e => e.clsId = 0 :=
            List.mem_filter.mpr ⟨he, decide_eq_true hcls⟩
          rw [hempty] at hmem
          exact absurd hmem List.not_mem_nil
        · exact hnone e he hcat
    | some e =>
        rw [hperson] at htarget
        have hmem := List.mem_filter.mp (List.mem_of_getLast? hperson)
        exact .inr (.inl ⟨hnone, e, hmem.1, of_decide_eq_true hmem.2, htarget⟩)
  · rw [targetEntry_of_cats hcats] at htarget
    obtain ⟨e, he⟩ := Option.ne_none_iff_exists'.mp (mt List.getLast?_eq_none_iff.mp hcats)
    rw [he] at htarget
    have hmem := List.mem_filter.mp (List.mem_of_getLast? he)
    exact .inl ⟨e, hmem.1, of_decide_eq_true hmem.2, htarget⟩

theorem drawResult_cats (h : drawResult g results readings = some st) :
    st.aims = (letThrough g.usecondLe
        ((cats results).zip (catReadings ⟨results, readings⟩))).map (fun e => mapBox g e.box) ∧
      ∀ e, (cats results).getLast? = some e → TargetIs g e st.globals := by
  obtain ⟨-, haims, -⟩ := drawResult_loop h
  constructor
  · rw [haims, drawLoop_aims, catVisits_eq_zip]
  · intro e he
    have hcats : cats results ≠ [] := by
      intro hnil
      rw [hnil] at he
      exact absurd he (by simp)
    have htarget := drawResult_target h
    rw [targetEntry_of_cats hcats, he] at htarget
    exact htarget

end Call

/-! ## Nothing but the cats matters -/

def listOf (entries : List ObjectDetectResult) (h : entries.length ≤ objNumbMaxSize) :
    ObjectDetectResultList where
  id := 0
  count := entries.length
  results :=
    ⟨(entries ++ List.replicate (objNumbMaxSize - entries.length)
      ObjectDetectResultList.zeroEntry).toArray, by simp; omega⟩
  count_le := by exact_mod_cast h

theorem reported_listOf (entries : List ObjectDetectResult)
    (h : entries.length ≤ objNumbMaxSize) : (listOf entries h).reported = entries := by
  simp [ObjectDetectResultList.reported, listOf]

theorem cats_length_le (results : ObjectDetectResultList) :
    (cats results).length ≤ objNumbMaxSize := by
  calc (cats results).length
      ≤ results.reported.length := List.length_filter_le _ _
    _ ≤ results.results.toList.length := List.length_take_le' _ _
    _ = objNumbMaxSize := Vector.length_toList

def onlyCats (results : ObjectDetectResultList) : ObjectDetectResultList :=
  listOf (cats results) (cats_length_le results)

theorem cats_onlyCats (results : ObjectDetectResultList) :
    cats (onlyCats results) = cats results := by
  unfold onlyCats
  conv_lhs => rw [cats, reported_listOf]
  unfold cats
  rw [List.filter_filter]
  simp

/-- **Cats and dogs have priority.**  In every reachable state, whatever the order of the
list; and if everything else is deleted from it, the clock and the switch being read as
before, neither the target interval nor the commands change. -/
theorem target_priority (frames : List FrameInput) (results : ObjectDetectResultList)
    (readings : ℕ → Reading) :
    ∃ g roi st, atDraw frames = some (g, roi) ∧ drawResult g results readings = some st ∧
      TargetByPriority g results st.globals ∧
      st.globals.detectResult.targetHave = (if HasTarget results then 1 else 0) ∧
      ∀ readings', cats results ≠ [] →
        catReadings ⟨onlyCats results, readings'⟩ = catReadings ⟨results, readings⟩ →
        ∃ st', drawResult g (onlyCats results) readings' = some st' ∧
          SameTarget st.globals st'.globals ∧ st'.aims = st.aims := by
  obtain ⟨g, hdraw, hg⟩ := atDraw_spec frames
  obtain ⟨st, hst, -, -, -, hhave, -⟩ := drawResult_spec hg.toConfigured results readings
  refine ⟨g, cropRegion, st, hdraw, hst, drawResult_byPriority hst, hhave, ?_⟩
  intro readings' hcats hread
  obtain ⟨st', hst', -⟩ := drawResult_spec hg.toConfigured (onlyCats results) readings'
  obtain ⟨haims, htarget⟩ := drawResult_cats hst
  obtain ⟨haims', htarget'⟩ := drawResult_cats hst'
  rw [cats_onlyCats, hread] at haims'
  rw [cats_onlyCats] at htarget'
  obtain ⟨e, he⟩ := Option.ne_none_iff_exists'.mp (mt List.getLast?_eq_none_iff.mp hcats)
  obtain ⟨hsx, hex⟩ := htarget e he
  obtain ⟨hsx', hex'⟩ := htarget' e he
  exact ⟨st', hst', ⟨hsx'.trans hsx.symm, hex'.trans hex.symm⟩, haims'.trans haims.symm⟩

def personThenCat : ObjectDetectResultList :=
  listOf
    [{ box := { left := 100, top := 300, right := 200, bottom := 400 }
       prop := 9 / 10
       clsId := 0 },
      { box := { left := 300, top := 300, right := 400, bottom := 400 }
        prop := 4 / 5
        clsId := 15 }]
    (by decide)

theorem target_priority_personThenCat :
    ∃ g roi st st', atDraw [] = some (g, roi) ∧
      drawResult g personThenCat (fun _ => ⟨0, 500000, 1⟩) = some st ∧
      drawResult g (onlyCats personThenCat) (fun _ => ⟨0, 500000, 1⟩) = some st' ∧
      SameTarget st.globals st'.globals ∧ st'.aims = st.aims := by
  obtain ⟨g, roi, st, hdraw, hst, -, -, honly⟩ :=
    target_priority [] personThenCat fun _ => ⟨0, 500000, 1⟩
  obtain ⟨st', hst', hsame, haims⟩ :=
    honly (fun _ => ⟨0, 500000, 1⟩) (by decide +kernel) rfl
  exact ⟨g, roi, st, st', hdraw, hst, hst', hsame, haims⟩

/-! ## The animal aimed at -/

/-- The target interval is that of the last command of the call. -/
def AimsAtTarget (st : DrawState) : Prop :=
  ∀ box, st.aims.getLast? = some box →
    st.globals.detectResult.targetSX = box.left ∧ st.globals.detectResult.targetEX = box.right

def SameColumns (g : Globals) (e e' : ObjectDetectResult) : Prop :=
  (mapBox g e.box).left = (mapBox g e'.box).left ∧ (mapBox g e.box).right = (mapBox g e'.box).right

/-- **When the animal aimed at is the one tracked.**  The gate applies to the commands only,
so the two are the last cat or dog it lets through and the last one of the list. -/
theorem aimsAtTarget_iff (frames : List FrameInput) (results : ObjectDetectResultList)
    (readings : ℕ → Reading) :
    ∃ g roi st, atDraw frames = some (g, roi) ∧ drawResult g results readings = some st ∧
      (AimsAtTarget st ↔ ∀ a c,
        (letThrough g.usecondLe (catVisits results readings)).getLast? = some a →
        (cats results).getLast? = some c → SameColumns g c a) := by
  obtain ⟨g, hdraw, hg⟩ := atDraw_spec frames
  obtain ⟨st, hst, -⟩ := drawResult_spec hg.toConfigured results readings
  obtain ⟨haims, htarget⟩ := drawResult_cats hst
  rw [← catVisits_eq_zip] at haims
  refine ⟨g, cropRegion, st, hdraw, hst, ?_⟩
  unfold AimsAtTarget
  rw [haims, List.getLast?_map]
  constructor
  · intro haimed a c ha hc
    obtain ⟨hsx, hex⟩ := htarget c hc
    obtain ⟨hleft, hright⟩ := haimed (mapBox g a.box) (by rw [ha]; rfl)
    exact ⟨hsx.symm.trans hleft, hex.symm.trans hright⟩
  · intro hcond box hbox
    obtain ⟨a, ha, rfl⟩ := Option.map_eq_some_iff.mp hbox
    -- an entry that is let through is a cat, so the list has a last one
    have hmem : a ∈ cats results := by
      rw [← catVisits_fst results readings]
      exact (letThrough_sublist _ _).subset (List.mem_of_getLast? ha)
    obtain ⟨c, hc⟩ := Option.ne_none_iff_exists'.mp
      (mt List.getLast?_eq_none_iff.mp (List.ne_nil_of_mem hmem))
    obtain ⟨hsx, hex⟩ := htarget c hc
    obtain ⟨hleft, hright⟩ := hcond a c ha hc
    exact ⟨hsx.trans hleft, hex.trans hright⟩

def twoCats : ObjectDetectResultList :=
  listOf
    [{ box := { left := 300, top := 300, right := 400, bottom := 400 }
       prop := 4 / 5
       clsId := 15 },
      { box := { left := 100, top := 300, right := 200, bottom := 400 }
        prop := 3 / 5
        clsId := 15 }]
    (by decide)

/-- The first cat is aimed at, and with the gate closed behind it the second is tracked. -/
theorem other_cat_tracked :
    ∃ g roi st, atDraw [] = some (g, roi) ∧
      drawResult g twoCats (fun _ => ⟨0, 500000, 1⟩) = some st ∧ ¬ AimsAtTarget st := by
  refine ⟨_, _, _, rfl, rfl, ?_⟩
  intro h
  have hleft := (h { left := 926, top := 506, right := 1095, bottom := 675 } (by decide +kernel)).1
  exact absurd hleft (by decide +kernel)

end CatDect.ImageHandle
