import CatDect.ImageHandle.Geometry
import CatDect.Postprocess.Candidates
import CatDect.Support.Loops

/-!
# Target selection and the choice of the next region

`draw_result` maps the reported boxes, records a target, sends aim commands and chooses
the region of the next frame.  `drawLoop_spec` says what its loop records; the results
at the end are about every run of the main loop.
-/

namespace CatDect.ImageHandle

open CatDect.Support CatDect.Postprocess

/-! ## The code -/

def posXDect : Vector ℤ 3 := #v[0, 420, 840]

def posMidDect : Vector ℤ 2 := #v[750, 1170]

/-- What `gettimeofday` and `Get_TeasingSW` return while one entry is processed. -/
structure Reading where
  tvSec : ℤ
  tvUsec : ℤ
  teasingSw : ℤ

/-- The gate in front of `mqtt_guard_ps_set`; the difference is unsigned. -/
def aimDue (usecondLe : ℤ) (r : Reading) : Prop :=
  300 * 1000 ≤ (r.tvUsec - usecondLe) % 2 ^ 32 ∧ r.teasingSw ≠ 0

instance (usecondLe : ℤ) (r : Reading) : Decidable (aimDue usecondLe r) :=
  inferInstanceAs (Decidable (_ ∧ _))

def mapBox (g : Globals) (box : ImageRect) : ImageRect :=
  let s := mapCoordinates g box.left box.top
  let e := mapCoordinates g box.right box.bottom
  { left := s.1, top := s.2, right := e.1, bottom := e.2 }

/-- The locals of `draw_result` and its output: the lines printed and the arguments of
the calls of `mqtt_guard_ps_set`. -/
structure DrawState where
  globals : Globals
  haveCat : ℕ
  haveTarget : ℤ
  printed : List ObjectDetectResult
  aims : List ImageRect

namespace DrawState

/-- The stores to `detect_result.sX` up to `eY` and the line printed for the entry. -/
def locate (st : DrawState) (detResult : ObjectDetectResult) : DrawState :=
  let box := mapBox st.globals detResult.box
  { st with
    globals :=
      { st.globals with
        detectResult :=
          { st.globals.detectResult with
            sX := box.left, sY := box.top, eX := box.right, eY := box.bottom } }
    printed := st.printed ++ [{ detResult with box := box }] }

/-- `have_target` and the target interval, set from the entry just located. -/
def target (st : DrawState) : DrawState :=
  { st with
    haveTarget := 1
    globals :=
      { st.globals with
        detectResult :=
          { st.globals.detectResult with
            targetSX := st.globals.detectResult.sX
            targetEX := st.globals.detectResult.eX } } }

def sawCat (st : DrawState) : DrawState :=
  { st with haveCat := 1, globals := { st.globals with catDected := 1 } }

def aim (st : DrawState) (r : Reading) : DrawState :=
  if aimDue st.globals.usecondLe r then
    let ret := st.globals.detectResult
    { st with
      aims := st.aims ++ [{ left := ret.sX, top := ret.sY, right := ret.eX, bottom := ret.eY }]
      globals := { st.globals with usecondLe := r.tvUsec % 2 ^ 32 } }
  else st

end DrawState

def drawEntry (readings : ℕ → Reading) (st : DrawState) (entry : ObjectDetectResult × ℕ) :
    DrawState :=
  let detResult := entry.1
  if detResult.clsId ≠ 0 ∧ detResult.clsId ≠ 15 ∧ detResult.clsId ≠ 16 then st
  else
    let st := st.locate detResult
    let st := if detResult.clsId = 15 ∨ detResult.clsId = 16 then
        st.sawCat.target.aim (readings entry.2) else st
    if detResult.clsId = 0 ∧ st.haveCat = 0 then st.target else st

def drawLoop (g : Globals) (results : ObjectDetectResultList) (readings : ℕ → Reading) :
    DrawState :=
  results.reported.zipIdx.foldl (drawEntry readings)
    { globals := g, haveCat := 0, haveTarget := 0, printed := [], aims := [] }

/-- `mid_pos`, a `uint32_t`. -/
def midPos (targetSX targetEX : ℤ) : ℤ := ((targetEX - targetSX).tdiv 2 + targetSX) % 2 ^ 32

def trackedRegion (midPos : ℤ) : ℤ :=
  if midPos < posMidDect[0] then posXDect[0]
  else if midPos < posMidDect[1] then posXDect[1]
  else posXDect[2]

/-- The last branch of `draw_result`. -/
def selectRegion (g : Globals) : Option Globals :=
  if g.detectResult.targetHave = 0 then
    if g.detectManage.pollingarea ≤ 2 then do
      let regionSX ← readAt posXDect.toList g.detectManage.pollingarea
      some { g with
        detectResult := { g.detectResult with regionSX := regionSX }
        detectManage :=
          { g.detectManage with
            pollingarea := (g.detectManage.pollingarea + 1).tmod g.detectManage.pollingareacnt } }
    else none
  else
    let midPos := midPos g.detectResult.targetSX g.detectResult.targetEX
    some { g with detectResult := { g.detectResult with regionSX := trackedRegion midPos } }

def drawResult (g : Globals) (results : ObjectDetectResultList) (readings : ℕ → Reading) :
    Option DrawState := do
  let st := drawLoop g results readings
  let g ← selectRegion st.globals
  some { st with
    globals := { g with detectResult := { g.detectResult with targetHave := st.haveTarget } } }

/-! ## What the loop records -/

def IsTarget (e : ObjectDetectResult) : Prop := e.clsId = 0 ∨ e.clsId = 15 ∨ e.clsId = 16

def IsCat (e : ObjectDetectResult) : Prop := e.clsId = 15 ∨ e.clsId = 16

instance : DecidablePred IsTarget := fun _ => inferInstanceAs (Decidable (_ ∨ _))

instance : DecidablePred IsCat := fun _ => inferInstanceAs (Decidable (_ ∨ _))

/-- The entry whose interval is the target: the last cat or dog, else the last person. -/
def targetEntry (entries : List ObjectDetectResult) : Option ObjectDetectResult :=
  (entries.filter fun e => IsCat e).getLast?.or
    (entries.filter fun e => e.clsId = 0).getLast?

structure SameMapping (g g' : Globals) : Prop where
  detectManage_eq : g'.detectManage = g.detectManage
  leftPadding_eq : g'.detectResult.leftPadding = g.detectResult.leftPadding
  topPadding_eq : g'.detectResult.topPadding = g.detectResult.topPadding
  regionSX_eq : g'.detectResult.regionSX = g.detectResult.regionSX
  targetHave_eq : g'.detectResult.targetHave = g.detectResult.targetHave

structure Recorded (g : Globals) (done : List ObjectDetectResult) (st : DrawState) : Prop where
  mapping : SameMapping g st.globals
  haveCat_eq : st.haveCat = if done.any fun e => IsCat e then 1 else 0
  haveTarget_eq : st.haveTarget = if done.any fun e => IsTarget e then 1 else 0
  targetSX_eq : st.globals.detectResult.targetSX = match targetEntry done with
    | some e => (mapBox g e.box).left
    | none => g.detectResult.targetSX
  targetEX_eq : st.globals.detectResult.targetEX = match targetEntry done with
    | some e => (mapBox g e.box).right
    | none => g.detectResult.targetEX
  printed_eq : st.printed =
    (done.filter fun e => IsTarget e).map fun e => { e with box := mapBox g e.box }
  aims_sublist : st.aims.Sublist
    ((done.filter fun e => IsCat e).map fun e => mapBox g e.box)

theorem SameMapping.mapBox_eq {g g' : Globals} (h : SameMapping g g') (box : ImageRect) :
    mapBox g' box = mapBox g box := by
  simp only [mapBox, mapCoordinates, h.detectManage_eq, h.leftPadding_eq, h.topPadding_eq,
    h.regionSX_eq]

theorem targetEntry_append_cat (done : List ObjectDetectResult) {e : ObjectDetectResult}
    (h : IsCat e) : targetEntry (done ++ [e]) = some e := by
  simp [targetEntry, h]

theorem targetEntry_append_person {done : List ObjectDetectResult} {e : ObjectDetectResult}
    (h : e.clsId = 0) (hdone : ∀ a ∈ done, ¬ IsCat a) : targetEntry (done ++ [e]) = some e := by
  have hcat : ¬ IsCat e := by
    unfold IsCat
    omega
  have hnone : done.filter (fun a => IsCat a) = [] := by simpa using hdone
  simp [targetEntry, h, hcat, hnone]

theorem targetEntry_append_of_cat {done : List ObjectDetectResult} {e : ObjectDetectResult}
    (h : ¬ IsCat e) {a : ObjectDetectResult} (ha : a ∈ done) (hcat : IsCat a) :
    targetEntry (done ++ [e]) = targetEntry done := by
  have hne : (done.filter fun a => IsCat a) ≠ [] :=
    List.ne_nil_of_mem (List.mem_filter.mpr ⟨ha, by simpa using hcat⟩)
  obtain ⟨b, hb⟩ := Option.ne_none_iff_exists'.mp (mt List.getLast?_eq_none_iff.mp hne)
  simp [targetEntry, h, hb]

theorem targetEntry_append_other (done : List ObjectDetectResult) {e : ObjectDetectResult}
    (h : ¬ IsTarget e) : targetEntry (done ++ [e]) = targetEntry done := by
  have hcat : ¬ IsCat e := fun hc => h (.inr hc)
  have hperson : e.clsId ≠ 0 := fun hp => h (.inl hp)
  simp [targetEntry, hcat, hperson]

section Loop

variable {g : Globals} {done : List ObjectDetectResult} {st : DrawState}
  {e : ObjectDetectResult} {readings : ℕ → Reading} {i : ℕ}

theorem DrawState.aim_globals (st : DrawState) (r : Reading) :
    (st.aim r).globals.detectManage = st.globals.detectManage ∧
      (st.aim r).globals.detectResult = st.globals.detectResult ∧
      (st.aim r).haveCat = st.haveCat ∧ (st.aim r).haveTarget = st.haveTarget ∧
      (st.aim r).printed = st.printed := by
  unfold DrawState.aim
  split
  · exact ⟨rfl, rfl, rfl, rfl, rfl⟩
  · exact ⟨rfl, rfl, rfl, rfl, rfl⟩

theorem DrawState.aim_aims (st : DrawState) (r : Reading) :
    (st.aim r).aims = st.aims ∨ (st.aim r).aims = st.aims ++
      [{ left := st.globals.detectResult.sX, top := st.globals.detectResult.sY,
         right := st.globals.detectResult.eX, bottom := st.globals.detectResult.eY }] := by
  unfold DrawState.aim
  split
  · exact .inr rfl
  · exact .inl rfl

theorem drawEntry_cat (he : IsCat e) :
    drawEntry readings st (e, i) = (st.locate e).sawCat.target.aim (readings i) := by
  have hcls : e.clsId = 15 ∨ e.clsId = 16 := he
  have hskip : ¬ (e.clsId ≠ 0 ∧ e.clsId ≠ 15 ∧ e.clsId ≠ 16) := by omega
  have hperson : ∀ n : ℕ, ¬ (e.clsId = 0 ∧ n = 0) := by omega
  simp only [drawEntry, if_neg hskip, if_pos hcls]
  rw [if_neg (hperson _)]

theorem Recorded.skip (h : Recorded g done st) (he : ¬ IsTarget e) :
    Recorded g (done ++ [e]) (drawEntry readings st (e, i)) := by
  have hcls : e.clsId ≠ 0 ∧ e.clsId ≠ 15 ∧ e.clsId ≠ 16 := by
    simpa [IsTarget] using he
  have hcat : ¬ IsCat e := fun hc => he (.inr hc)
  have hsame : drawEntry readings st (e, i) = st := if_pos hcls
  rw [hsame]
  refine ⟨h.mapping, ?_, ?_, ?_, ?_, ?_, ?_⟩
  · simp [h.haveCat_eq, hcat]
  · simp [h.haveTarget_eq, he]
  · rw [targetEntry_append_other done he, h.targetSX_eq]
  · rw [targetEntry_append_other done he, h.targetEX_eq]
  · simp [h.printed_eq, he]
  · simpa [hcat] using h.aims_sublist

theorem Recorded.cat (h : Recorded g done st) (he : IsCat e) :
    Recorded g (done ++ [e]) (drawEntry readings st (e, i)) := by
  have htarget : IsTarget e := .inr he
  have hbox := h.mapping.mapBox_eq e.box
  rw [drawEntry_cat he]
  set shown := (st.locate e).sawCat.target with hshown
  obtain ⟨hmanage, hret, hcat, htgt, hprinted⟩ := shown.aim_globals (readings i)
  refine ⟨?_, ?_, ?_, ?_, ?_, ?_, ?_⟩
  · constructor
    · rw [hmanage]
      exact h.mapping.detectManage_eq
    · rw [hret]
      exact h.mapping.leftPadding_eq
    · rw [hret]
      exact h.mapping.topPadding_eq
    · rw [hret]
      exact h.mapping.regionSX_eq
    · rw [hret]
      exact h.mapping.targetHave_eq
  · rw [hcat]
    simp [hshown, DrawState.sawCat, DrawState.target, he]
  · rw [htgt]
    simp [hshown, DrawState.target, htarget]
  · rw [hret, targetEntry_append_cat done he]
    exact congrArg ImageRect.left hbox
  · rw [hret, targetEntry_append_cat done he]
    exact congrArg ImageRect.right hbox
  · have hline : shown.printed = st.printed ++ [{ e with box := mapBox st.globals e.box }] := rfl
    rw [hprinted, hline, h.printed_eq, hbox]
    simp [htarget]
  · have hlist : (done ++ [e]).filter (fun a => IsCat a) =
        done.filter (fun a => IsCat a) ++ [e] := by
      simp [he]
    rw [hlist, List.map_append, List.map_singleton, ← hbox]
    rcases shown.aim_aims (readings i) with haims | haims
    · rw [haims]
      exact h.aims_sublist.trans (List.sublist_append_left _ _)
    · rw [haims]
      exact h.aims_sublist.append (List.Sublist.refl _)

theorem Recorded.person (h : Recorded g done st) (he : e.clsId = 0) :
    Recorded g (done ++ [e]) (drawEntry readings st (e, i)) := by
  have htarget : IsTarget e := .inl he
  have hcat : ¬ IsCat e := by
    unfold IsCat
    omega
  have hskip : ¬ (e.clsId ≠ 0 ∧ e.clsId ≠ 15 ∧ e.clsId ≠ 16) := fun hc => hc.1 he
  have hbox := h.mapping.mapBox_eq e.box
  have hstep : drawEntry readings st (e, i) =
      if st.haveCat = 0 then (st.locate e).target else st.locate e := by
    have hcls : ¬ (e.clsId = 15 ∨ e.clsId = 16) := hcat
    simp only [drawEntry, if_neg hskip, if_neg hcls]
    by_cases hc : st.haveCat = 0
    · rw [if_pos ⟨he, hc⟩, if_pos hc]
    · rw [if_neg fun hh => hc hh.2, if_neg hc]
  have hprinted : (st.locate e).printed =
      ((done ++ [e]).filter fun a => IsTarget a).map fun a => { a with box := mapBox g a.box } := by
    have hline : (st.locate e).printed =
        st.printed ++ [{ e with box := mapBox st.globals e.box }] := rfl
    rw [hline, h.printed_eq, hbox]
    simp [htarget]
  have haims : st.aims.Sublist
      (((done ++ [e]).filter fun a => IsCat a).map fun a => mapBox g a.box) := by
    simpa [hcat] using h.aims_sublist
  have hlocate : SameMapping g (st.locate e).globals :=
    ⟨h.mapping.1, h.mapping.2, h.mapping.3, h.mapping.4, h.mapping.5⟩
  have htargeted : SameMapping g (st.locate e).target.globals :=
    ⟨h.mapping.1, h.mapping.2, h.mapping.3, h.mapping.4, h.mapping.5⟩
  rw [hstep]
  by_cases hany : ∃ a ∈ done, IsCat a
  · obtain ⟨a, ha, hacat⟩ := hany
    have hany : done.any (fun a => IsCat a) = true :=
      List.any_eq_true.mpr ⟨a, ha, by simpa using hacat⟩
    have hseen : st.haveCat = 1 := by rw [h.haveCat_eq, if_pos hany]
    have htgt : st.haveTarget = 1 := by
      rw [h.haveTarget_eq, if_pos]
      exact List.any_eq_true.mpr ⟨a, ha, by simpa using (show IsTarget a from .inr hacat)⟩
    rw [if_neg (by omega)]
    refine ⟨hlocate, ?_, ?_, ?_, ?_, hprinted, haims⟩
    · rw [List.any_append, hany]
      exact hseen
    · rw [List.any_append, if_pos (by simp [htarget])]
      exact htgt
    · rw [targetEntry_append_of_cat hcat ha hacat]
      exact h.targetSX_eq
    · rw [targetEntry_append_of_cat hcat ha hacat]
      exact h.targetEX_eq
  · push Not at hany
    have hnone : done.any (fun a => IsCat a) = false := by simpa using hany
    have hseen : st.haveCat = 0 := by
      rw [h.haveCat_eq, hnone]
      rfl
    rw [if_pos hseen]
    refine ⟨htargeted, ?_, ?_, ?_, ?_, hprinted, haims⟩
    · have hkept : (st.locate e).target.haveCat = st.haveCat := rfl
      rw [List.any_append, hnone, hkept, hseen]
      simp [hcat]
    · rw [List.any_append, if_pos (by simp [htarget])]
      rfl
    · rw [targetEntry_append_person he hany]
      exact congrArg ImageRect.left hbox
    · rw [targetEntry_append_person he hany]
      exact congrArg ImageRect.right hbox

/-- **What the loop of `draw_result` records.** -/
theorem drawLoop_spec (g : Globals) (results : ObjectDetectResultList)
    (readings : ℕ → Reading) : Recorded g results.reported (drawLoop g results readings) := by
  have hrule := foldl_list_rule (l := results.reported.zipIdx) (f := drawEntry readings)
    (s := { globals := g, haveCat := 0, haveTarget := 0, printed := [], aims := [] })
    (fun done st => Recorded g (done.map Prod.fst) st) ?_ ?_
  · rwa [List.zipIdx_map_fst] at hrule
  · exact ⟨⟨rfl, rfl, rfl, rfl, rfl⟩, rfl, rfl, rfl, rfl, rfl, List.Sublist.refl _⟩
  · rintro done ⟨e, i⟩ st hst
    rw [List.map_append, List.map_singleton]
    by_cases htarget : IsTarget e
    · rcases htarget with hperson | hcat
      · exact hst.person hperson
      · exact hst.cat hcat
    · exact hst.skip htarget

end Loop

/-! ## One call -/

def recordedMidPos (g : Globals) (results : ObjectDetectResultList) : ℤ :=
  match targetEntry results.reported with
  | some e => midPos (mapBox g e.box).left (mapBox g e.box).right
  | none => midPos g.detectResult.targetSX g.detectResult.targetEX

def HasTarget (results : ObjectDetectResultList) : Prop := ∃ e ∈ results.reported, IsTarget e

instance (results : ObjectDetectResultList) : Decidable (HasTarget results) :=
  inferInstanceAs (Decidable (∃ e ∈ _, _))

theorem SameMapping.configured {g g' : Globals} (h : SameMapping g g') (hg : Configured g) :
    Configured g' := by
  obtain ⟨hw, hh, hmw, hmh, hcnt, harea, hregion⟩ := hg
  rw [← h.detectManage_eq] at hw hh hmw hmh hcnt harea
  rw [← h.regionSX_eq] at hregion
  exact ⟨hw, hh, hmw, hmh, hcnt, harea, hregion⟩

theorem posXDect_readAt {area : ℤ} (h : 0 ≤ area ∧ area < 3) :
    ∃ x, readAt posXDect.toList area = some x ∧ x ≤ 840 := by
  obtain rfl | rfl | rfl : area = 0 ∨ area = 1 ∨ area = 2 := by omega
  · exact ⟨0, rfl, by decide⟩
  · exact ⟨420, rfl, by decide⟩
  · exact ⟨840, rfl, by decide⟩

theorem trackedRegion_le (mid : ℤ) : trackedRegion mid ≤ 840 := by
  unfold trackedRegion
  split_ifs <;> decide

theorem selectRegion_spec {g : Globals} (hg : Configured g) :
    ∃ g', selectRegion g = some g' ∧ Configured g' ∧
      g'.detectResult.targetSX = g.detectResult.targetSX ∧
      g'.detectResult.targetEX = g.detectResult.targetEX ∧
      (g.detectResult.targetHave = 0 →
        readAt posXDect.toList g.detectManage.pollingarea = some g'.detectResult.regionSX ∧
        g'.detectManage.pollingarea = (g.detectManage.pollingarea + 1) % 3) ∧
      (g.detectResult.targetHave ≠ 0 →
        g'.detectResult.regionSX =
          trackedRegion (midPos g.detectResult.targetSX g.detectResult.targetEX) ∧
        g'.detectManage.pollingarea = g.detectManage.pollingarea) := by
  obtain ⟨hw, hh, hmw, hmh, hcnt, harea, -⟩ := hg
  by_cases hpoll : g.detectResult.targetHave = 0
  · obtain ⟨x, hread, hx⟩ := posXDect_readAt harea
    have hnext : (g.detectManage.pollingarea + 1).tmod g.detectManage.pollingareacnt =
        (g.detectManage.pollingarea + 1) % 3 := by
      rw [hcnt, Int.tmod_eq_emod_of_nonneg (by omega)]
    refine ⟨{ g with
        detectResult := { g.detectResult with regionSX := x }
        detectManage :=
          { g.detectManage with pollingarea := (g.detectManage.pollingarea + 1) % 3 } },
      ?_, ⟨hw, hh, hmw, hmh, hcnt, ?_, hx⟩, rfl, rfl, fun _ => ⟨hread, rfl⟩,
      fun h => absurd hpoll h⟩
    · rw [selectRegion, if_pos hpoll, if_pos (by omega), hread, hnext]
      rfl
    · exact ⟨Int.emod_nonneg _ (by decide), Int.emod_lt_of_pos _ (by decide)⟩
  · refine ⟨{ g with
        detectResult :=
          { g.detectResult with
            regionSX :=
              trackedRegion (midPos g.detectResult.targetSX g.detectResult.targetEX) } },
      ?_, ⟨hw, hh, hmw, hmh, hcnt, harea, trackedRegion_le _⟩, rfl, rfl,
      fun h => absurd h hpoll, fun _ => ⟨rfl, rfl⟩⟩
    rw [selectRegion, if_neg hpoll]

theorem selectRegion_cases {g g' : Globals} (h : selectRegion g = some g') :
    ∃ regionSX pollingarea, g' =
      { g with
        detectResult := { g.detectResult with regionSX := regionSX }
        detectManage := { g.detectManage with pollingarea := pollingarea } } := by
  unfold selectRegion at h
  split at h
  · split at h
    · obtain ⟨x, -, hg⟩ := Option.bind_eq_some_iff.mp h
      exact ⟨x, _, (Option.some.inj hg).symm⟩
    · exact absurd h (by simp)
  · exact ⟨_, _, (Option.some.inj h).symm⟩

theorem drawResult_loop {g : Globals} {results : ObjectDetectResultList}
    {readings : ℕ → Reading} {st : DrawState} (h : drawResult g results readings = some st) :
    st.printed = (drawLoop g results readings).printed ∧
      st.aims = (drawLoop g results readings).aims ∧
      st.globals.usecondLe = (drawLoop g results readings).globals.usecondLe ∧
      st.globals.detectResult.targetSX =
        (drawLoop g results readings).globals.detectResult.targetSX ∧
      st.globals.detectResult.targetEX =
        (drawLoop g results readings).globals.detectResult.targetEX ∧
      st.globals.detectResult.targetHave = (drawLoop g results readings).haveTarget := by
  obtain ⟨g', hselect, hst⟩ := Option.bind_eq_some_iff.mp h
  obtain ⟨regionSX, pollingarea, rfl⟩ := selectRegion_cases hselect
  rw [← Option.some.inj hst]
  exact ⟨rfl, rfl, rfl, rfl, rfl, rfl⟩

/-- **One call of `draw_result`.**  The branch is taken on the `target_have` of the call
before; everything else is read off the list. -/
theorem drawResult_spec {g : Globals} (hg : Configured g) (results : ObjectDetectResultList)
    (readings : ℕ → Reading) :
    ∃ st, drawResult g results readings = some st ∧ Configured st.globals ∧
      st.printed = (results.reported.filter fun e => IsTarget e).map
        (fun e => { e with box := mapBox g e.box }) ∧
      st.aims.Sublist ((results.reported.filter fun e => IsCat e).map fun e => mapBox g e.box) ∧
      st.globals.detectResult.targetHave = (if HasTarget results then 1 else 0) ∧
      midPos st.globals.detectResult.targetSX st.globals.detectResult.targetEX =
        recordedMidPos g results ∧
      (g.detectResult.targetHave = 0 →
        readAt posXDect.toList g.detectManage.pollingarea =
          some st.globals.detectResult.regionSX ∧
        st.globals.detectManage.pollingarea = (g.detectManage.pollingarea + 1) % 3) ∧
      (g.detectResult.targetHave ≠ 0 →
        st.globals.detectResult.regionSX = trackedRegion (recordedMidPos g results) ∧
        st.globals.detectManage.pollingarea = g.detectManage.pollingarea) := by
  have hloop := drawLoop_spec g results readings
  obtain ⟨g', hselect, hg', htargetS, htargetE, hpolling, htracking⟩ :=
    selectRegion_spec (hloop.mapping.configured hg)
  have hhave : (drawLoop g results readings).haveTarget = if HasTarget results then 1 else 0 := by
    rw [hloop.haveTarget_eq]
    congr 1
    simp [HasTarget]
  have hmid : midPos (drawLoop g results readings).globals.detectResult.targetSX
      (drawLoop g results readings).globals.detectResult.targetEX = recordedMidPos g results := by
    unfold recordedMidPos
    rw [hloop.targetSX_eq, hloop.targetEX_eq]
    cases targetEntry results.reported <;> rfl
  rw [hloop.mapping.targetHave_eq, hloop.mapping.detectManage_eq] at hpolling
  rw [hloop.mapping.targetHave_eq, hloop.mapping.detectManage_eq, hmid] at htracking
  refine ⟨{ drawLoop g results readings with
      globals :=
        { g' with
          detectResult :=
            { g'.detectResult with
              targetHave := (drawLoop g results readings).haveTarget } } },
    ?_, ⟨hg'.1, hg'.2, hg'.3, hg'.4, hg'.5, hg'.6, hg'.7⟩, hloop.printed_eq, hloop.aims_sublist,
    hhave, ?_, hpolling, htracking⟩
  · unfold drawResult
    simp only [hselect, Option.bind_eq_bind, Option.bind_some]
  · rw [← hmid, ← htargetS, ← htargetE]

end CatDect.ImageHandle
