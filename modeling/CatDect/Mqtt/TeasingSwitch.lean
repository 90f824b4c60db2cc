import CatDect.Mqtt.Turret

/-!
# The switch

The receive thread of the subscriber writes `Teasing_sw` while `draw_result` works on its
list.  Here the loop of `draw_result` is cut into the reading of the switch, the call of
`mqtt_guard_ps_set` and what lies between, and messages may arrive before every step.
`drawing_after` ties the steps to `draw_result` itself.
-/

namespace CatDect.Mqtt

open CatDect.Support CatDect.Postprocess CatDect.ImageHandle

/-! ## The code -/

/-- `Teasing_sw` after a message. -/
def messageArrivedS (teasingSw : ℤ) (payload : List UInt8) : ℤ :=
  if payload.length < 3 then teasingSw
  else if payload[1]? = some '1'.toUInt8 then 1
  else 0

/-- The lists that `draw_result` is given, call by call, and what `gettimeofday` returns for
the entries of each. -/
structure Scene where
  results : ℕ → ObjectDetectResultList
  clock : ℕ → ℕ → ℤ × ℤ

/-- The next step of `main`: a frame is polled, the time is asked for an entry of the list,
then the switch, then the command is published; after the last entry a region is chosen. -/
inductive DrawPc
  | poll
  | entry (i : ℕ)
  | read (i : ℕ)
  | publish (i : ℕ)
  | select
  | aborted

inductive Event
  | message (payload : List UInt8)
  | read (call i : ℕ) (teasingSw : ℤ)
  | publish (call i : ℕ) (box : ImageRect)

/-- The state of both threads, with what was read in the current call, the calls that have
returned and the log. -/
structure SwitchState where
  teasingSw : ℤ
  pc : DrawPc
  draw : DrawState
  seen : ℕ → Reading
  frames : List FrameInput
  log : List Event

def timeDue (usecondLe tvUsec : ℤ) : Prop := 300 * 1000 ≤ (tvUsec - usecondLe) % 2 ^ 32

instance (usecondLe tvUsec : ℤ) : Decidable (timeDue usecondLe tvUsec) :=
  inferInstanceAs (Decidable (_ ≤ _))

def enter (g : Globals) : DrawState :=
  { globals := g, haveCat := 0, haveTarget := 0, printed := [], aims := [] }

def located (st : DrawState) : ImageRect :=
  let ret := st.globals.detectResult
  { left := ret.sX, top := ret.sY, right := ret.eX, bottom := ret.eY }

def entryStep (scene : Scene) (s : SwitchState) (i : ℕ) (detResult : ObjectDetectResult) :
    SwitchState :=
  if detResult.clsId ≠ 0 ∧ detResult.clsId ≠ 15 ∧ detResult.clsId ≠ 16 then
    { s with pc := .entry (i + 1) }
  else
    let st := s.draw.locate detResult
    if detResult.clsId = 15 ∨ detResult.clsId = 16 then
      let t := scene.clock s.frames.length i
      -- the switch is read only if the time allows the command
      { s with
        draw := st.sawCat.target
        seen := Function.update s.seen i ⟨t.1, t.2, 0⟩
        pc := if timeDue st.globals.usecondLe t.2 then .read i else .entry (i + 1) }
    else
      { s with
        draw := if detResult.clsId = 0 ∧ st.haveCat = 0 then st.target else st
        pc := .entry (i + 1) }

def drawStep (scene : Scene) (s : SwitchState) : SwitchState :=
  match s.pc with
  | .poll =>
      match pollingdecetbox s.draw.globals with
      | some (g, _) => { s with draw := enter g, pc := .entry 0 }
      | none => { s with pc := .aborted }
  | .entry i =>
      match (scene.results s.frames.length).reported[i]? with
      | some detResult => entryStep scene s i detResult
      | none => { s with pc := .select }
  | .read i =>
      { s with
        seen := Function.update s.seen i { s.seen i with teasingSw := s.teasingSw }
        log := s.log ++ [.read s.frames.length i s.teasingSw]
        pc := if s.teasingSw ≠ 0 then .publish i else .entry (i + 1) }
  | .publish i =>
      { s with
        draw :=
          { s.draw with
            aims := s.draw.aims ++ [located s.draw]
            globals := { s.draw.globals with usecondLe := (s.seen i).tvUsec % 2 ^ 32 } }
        log := s.log ++ [.publish s.frames.length i (located s.draw)]
        pc := .entry (i + 1) }
  | .select =>
      match selectRegion s.draw.globals with
      | some g =>
          { s with
            draw := enter
              { g with detectResult := { g.detectResult with targetHave := s.draw.haveTarget } }
            frames := s.frames ++ [⟨scene.results s.frames.length, s.seen⟩]
            pc := .poll }
      | none => { s with pc := .aborted }
  | .aborted => s

inductive Act
  | message (payload : List UInt8)
  | draw

def switchStep (scene : Scene) (s : SwitchState) : Act → SwitchState
  | .message payload =>
      { s with
        teasingSw := messageArrivedS s.teasingSw payload
        log := s.log ++ [.message payload] }
  | .draw => drawStep scene s

def SwitchState.init : SwitchState where
  teasingSw := 1
  pc := .poll
  draw := enter (imageHanldeInit .static)
  seen := fun _ => ⟨0, 0, 0⟩
  frames := []
  log := []

def drawingAfter (scene : Scene) (schedule : List Act) : SwitchState :=
  run (switchStep scene) .init schedule

/-! ## The switch and its messages -/

def SwitchesOn (payload : List UInt8) : Prop :=
  3 ≤ payload.length ∧ payload[1]? = some '1'.toUInt8

def SwitchesOff (payload : List UInt8) : Prop :=
  3 ≤ payload.length ∧ payload[1]? ≠ some '1'.toUInt8

def messagesOf (schedule : List Act) : List (List UInt8) :=
  schedule.filterMap fun
    | .message payload => some payload
    | .draw => none

def arrived (log : List Event) : List (List UInt8) :=
  log.filterMap fun
    | .message payload => some payload
    | _ => none

/-- What the switch is after a sequence of messages: the last that is long enough decides. -/
def switchOf (payloads : List (List UInt8)) : ℤ :=
  match (payloads.filter fun p => 3 ≤ p.length).getLast? with
  | some payload => if payload[1]? = some '1'.toUInt8 then 1 else 0
  | none => 1

theorem switchOf_concat (payloads : List (List UInt8)) (payload : List UInt8) :
    switchOf (payloads ++ [payload]) = messageArrivedS (switchOf payloads) payload := by
  by_cases hlong : 3 ≤ payload.length
  · have hlast : ((payloads ++ [payload]).filter fun p => 3 ≤ p.length).getLast? =
        some payload := by
      simp [hlong]
    rw [messageArrivedS, if_neg (not_lt.mpr hlong), switchOf, hlast]
  · have hskip : (payloads ++ [payload]).filter (fun p => 3 ≤ p.length) =
        payloads.filter fun p => 3 ≤ p.length := by
      simp [hlong]
    rw [messageArrivedS, if_pos (not_le.mp hlong), switchOf, hskip, switchOf]

@[simp] theorem arrived_message (log : List Event) (payload : List UInt8) :
    arrived (log ++ [.message payload]) = arrived log ++ [payload] := by
  simp [arrived]

@[simp] theorem arrived_read (log : List Event) (n i : ℕ) (v : ℤ) :
    arrived (log ++ [.read n i v]) = arrived log := by
  simp [arrived]

@[simp] theorem arrived_publish (log : List Event) (n i : ℕ) (box : ImageRect) :
    arrived (log ++ [.publish n i box]) = arrived log := by
  simp [arrived]

theorem switchOf_off {before mid : List Event} {off : List UInt8} (hoff : SwitchesOff off)
    (hmid : ∀ p, .message p ∈ mid → ¬ SwitchesOn p) :
    switchOf (arrived (before ++ .message off :: mid)) = 0 := by
  induction mid using List.reverseRecOn with
  | nil =>
      rw [arrived_message, switchOf_concat, messageArrivedS, if_neg (not_lt.mpr hoff.1),
        if_neg hoff.2]
  | append_singleton mid e ih =>
      have hbefore := ih fun p hp => hmid p (List.mem_append_left _ hp)
      have hsplit : before ++ .message off :: (mid ++ [e]) =
          before ++ .message off :: mid ++ [e] := by simp
      rw [hsplit]
      cases e with
      | message p =>
          have hp : ¬ SwitchesOn p := hmid p (List.mem_append_right _ List.mem_cons_self)
          rw [arrived_message, switchOf_concat, hbefore, messageArrivedS]
          split
          · rfl
          · rename_i hlong
            exact if_neg fun hone => hp ⟨not_lt.mp hlong, hone⟩
      | read n i v => rw [arrived_read, hbefore]
      | publish n i box => rw [arrived_publish, hbefore]

/-! ## Commands after an off message -/

def Event.isPublish : Event → Bool
  | .publish _ _ _ => true
  | _ => false

/-- The switch was read last for entry `i` of call `n`, it was on, and only messages have
arrived since. -/
def Pending (log : List Event) (n i : ℕ) : Prop :=
  ∃ before since, log = before ++ .read n i (switchOf (arrived before)) :: since ∧
    switchOf (arrived before) ≠ 0 ∧ ∀ e ∈ since, ∃ p, e = .message p

/-- From an off message to the next on message at most one command is published; the switch
was read for it before the off message, and only messages lie between. -/
def OffTakesEffect (log : List Event) : Prop :=
  ∀ before off mid after, log = before ++ .message off :: (mid ++ after) → SwitchesOff off →
    (∀ p, .message p ∈ mid → ¬ SwitchesOn p) →
    (mid.filter Event.isPublish).length ≤ 1 ∧
      ∀ start n i box rest, mid = start ++ .publish n i box :: rest →
        (∃ v, .read n i v ∈ before) ∧ ∀ e ∈ start, ∃ p, e = .message p

/-- Every reading of the switch finds it as the messages before have left it. -/
def ReadsTrue (log : List Event) : Prop :=
  EachEntry (fun before e => ∀ n i v, e = .read n i v → v = switchOf (arrived before)) log

structure Gatekept (s : SwitchState) : Prop where
  teasingSw_eq : s.teasingSw = switchOf (arrived s.log)
  reads : ReadsTrue s.log
  pending : ∀ i, s.pc = .publish i → Pending s.log s.frames.length i
  published : EachEntry (fun before e => ∀ n i box, e = .publish n i box → Pending before n i) s.log

theorem gatekept_init : Gatekept .init where
  teasingSw_eq := rfl
  reads := eachEntry_nil
  pending := fun _ h => absurd h (by simp [SwitchState.init])
  published := eachEntry_nil

theorem Pending.message {log : List Event} {n i : ℕ} (h : Pending log n i) (p : List UInt8) :
    Pending (log ++ [.message p]) n i := by
  obtain ⟨before, since, hlog, hon, hsince⟩ := h
  refine ⟨before, since ++ [.message p], by rw [hlog]; simp, hon, ?_⟩
  intro e he
  rcases List.mem_append.mp he with hold | hnew
  · exact hsince e hold
  · exact ⟨p, List.mem_singleton.mp hnew⟩

section Gatekept

variable {scene : Scene} {s : SwitchState}

theorem Gatekept.message (h : Gatekept s) (p : List UInt8) :
    Gatekept (switchStep scene s (.message p)) where
  teasingSw_eq := by
    show messageArrivedS s.teasingSw p = switchOf (arrived (s.log ++ [.message p]))
    rw [h.teasingSw_eq, arrived_message, switchOf_concat]
  reads := eachEntry_append_singleton.mpr ⟨h.reads, fun _ _ _ he => by simp at he⟩
  pending := fun i hpc => (h.pending i hpc).message p
  published := eachEntry_append_singleton.mpr ⟨h.published, fun _ _ _ he => by simp at he⟩

theorem entryStep_keeps (scene : Scene) (s : SwitchState) (i : ℕ) (e : ObjectDetectResult) :
    (entryStep scene s i e).teasingSw = s.teasingSw ∧ (entryStep scene s i e).log = s.log ∧
      (entryStep scene s i e).frames = s.frames ∧ ∀ j, (entryStep scene s i e).pc ≠ .publish j := by
  unfold entryStep
  split
  · exact ⟨rfl, rfl, rfl, by simp⟩
  · dsimp only
    split
    · refine ⟨rfl, rfl, rfl, ?_⟩
      intro j
      dsimp only
      split <;> simp
    · exact ⟨rfl, rfl, rfl, by simp⟩

theorem Gatekept.quiet {s' : SwitchState} (h : Gatekept s) (hsw : s'.teasingSw = s.teasingSw)
    (hlog : s'.log = s.log) (hpc : ∀ i, s'.pc ≠ .publish i) : Gatekept s' where
  teasingSw_eq := by rw [hsw, hlog, h.teasingSw_eq]
  reads := by
    rw [hlog]
    exact h.reads
  pending := fun i hi => absurd hi (hpc i)
  published := by
    rw [hlog]
    exact h.published

theorem Gatekept.draw (h : Gatekept s) : Gatekept (switchStep scene s .draw) := by
  rw [switchStep]
  cases hpc : s.pc with
  | poll | select =>
      simp only [drawStep, hpc]
      split <;> exact h.quiet rfl rfl (by simp)
  | entry i =>
      simp only [drawStep, hpc]
      split
      · rename_i e _
        obtain ⟨hsw, hlog, -, hpc'⟩ := entryStep_keeps scene s i e
        exact h.quiet hsw hlog hpc'
      · exact h.quiet rfl rfl (by simp)
  | read i =>
      simp only [drawStep, hpc]
      constructor
      · dsimp only
        rw [arrived_read, h.teasingSw_eq]
      · apply eachEntry_append_singleton.mpr ⟨h.reads, _⟩
        intro n j v he
        obtain ⟨-, -, hv⟩ := Event.read.inj he
        rw [← hv, h.teasingSw_eq]
      · intro j hj
        dsimp only at hj
        split at hj
        · rename_i hon
          obtain rfl := DrawPc.publish.inj hj
          rw [h.teasingSw_eq] at hon
          refine ⟨s.log, [], ?_, hon, fun _ he => absurd he List.not_mem_nil⟩
          rw [h.teasingSw_eq]
        · exact absurd hj (by simp)
      · exact eachEntry_append_singleton.mpr ⟨h.published, fun _ _ _ he => by simp at he⟩
  | publish i =>
      simp only [drawStep, hpc]
      constructor
      · dsimp only
        rw [arrived_publish, h.teasingSw_eq]
      · exact eachEntry_append_singleton.mpr ⟨h.reads, fun _ _ _ he => by simp at he⟩
      · exact fun j hj => absurd hj (by simp)
      · apply eachEntry_append_singleton.mpr ⟨h.published, _⟩
        intro n j box he
        obtain ⟨rfl, rfl, -⟩ := Event.publish.inj he
        exact h.pending _ hpc
  | aborted =>
      simp only [drawStep, hpc]
      exact h

end Gatekept

theorem arrived_drawStep (scene : Scene) (s : SwitchState) :
    arrived (drawStep scene s).log = arrived s.log := by
  cases hpc : s.pc with
  | poll | select =>
      simp only [drawStep, hpc]
      split <;> rfl
  | entry i =>
      simp only [drawStep, hpc]
      split
      · rename_i e _
        rw [(entryStep_keeps scene s i e).2.1]
      · rfl
  | read i =>
      simp only [drawStep, hpc]
      exact arrived_read s.log _ i s.teasingSw
  | publish i =>
      simp only [drawStep, hpc]
      exact arrived_publish s.log _ i _
  | aborted => simp only [drawStep, hpc]

theorem gatekept_after (scene : Scene) (schedule : List Act) :
    Gatekept (drawingAfter scene schedule) := by
  apply run_invariant gatekept_init
  intro s a h
  cases a with
  | message p => exact h.message p
  | draw => exact h.draw

theorem Pending.of_off {before mid : List Event} {off : List UInt8} {n i : ℕ}
    (h : Pending (before ++ .message off :: mid) n i) (hoff : SwitchesOff off)
    (hmid : ∀ p, .message p ∈ mid → ¬ SwitchesOn p) :
    (∃ v, .read n i v ∈ before) ∧ ∀ e ∈ mid, ∃ p, e = .message p := by
  obtain ⟨before', since, hlog, hon, hsince⟩ := h
  rcases List.append_eq_append_iff.mp hlog with ⟨l, hbefore, hrest⟩ | ⟨l, hbefore, hrest⟩
  · cases l with
    | nil => exact absurd (List.cons.inj hrest).1 (by simp)
    | cons e l =>
        obtain ⟨rfl, hmid'⟩ := List.cons.inj hrest
        -- a read after the off message finds the switch off
        have hoff' : switchOf (arrived before') = 0 := by
          rw [hbefore]
          apply switchOf_off hoff
          intro p hp
          apply hmid p
          rw [hmid']
          exact List.mem_append_left _ hp
        exact absurd hoff' hon
  · cases l with
    | nil => exact absurd (List.cons.inj hrest).1 (by simp)
    | cons e l =>
        obtain ⟨rfl, hsince'⟩ := List.cons.inj hrest
        refine ⟨⟨_, by rw [hbefore]; exact List.mem_append_right _ List.mem_cons_self⟩, ?_⟩
        intro e he
        apply hsince e
        rw [hsince']
        exact List.mem_append_right _ (List.mem_cons_of_mem _ he)

theorem Gatekept.offTakesEffect {s : SwitchState} (h : Gatekept s) : OffTakesEffect s.log := by
  intro before off mid after hlog hoff hmid
  have hsplit : ∀ start n i box rest, mid = start ++ .publish n i box :: rest →
      (∃ v, .read n i v ∈ before) ∧ ∀ e ∈ start, ∃ p, e = .message p := by
    intro start n i box rest hstart
    have hpending : Pending (before ++ .message off :: start) n i := by
      have hwhole : s.log = (before ++ .message off :: start) ++
          .publish n i box :: (rest ++ after) := by
        rw [hlog, hstart]
        simp
      exact h.published.of_split hwhole n i box rfl
    apply hpending.of_off hoff
    intro p hp
    apply hmid p
    rw [hstart]
    exact List.mem_append_left _ hp
  refine ⟨?_, hsplit⟩
  apply length_filter_le_one
  intro start e rest hstart he b hb
  cases e with
  | publish n i box =>
      obtain ⟨p, rfl⟩ := (hsplit start n i box rest hstart).2 b hb
      exact Bool.false_ne_true
  | message p | read n i v => exact absurd he (by simp [Event.isPublish])

theorem arrived_after (scene : Scene) (schedule : List Act) :
    arrived (drawingAfter scene schedule).log = messagesOf schedule := by
  induction schedule using List.reverseRecOn with
  | nil => rfl
  | append_singleton schedule a ih =>
      rw [drawingAfter, run_append_singleton, messagesOf, List.filterMap_append]
      change arrived (switchStep scene (drawingAfter scene schedule) a).log =
        messagesOf schedule ++ _
      rw [← ih]
      cases a with
      | message p => exact arrived_message _ p
      | draw =>
          rw [switchStep, arrived_drawStep]
          exact (List.append_nil _).symm

/-- **The off switch takes effect.**  In every interleaving a short message leaves the switch
alone, the switch is that of the last longer message that has arrived, every reading finds it
so, and from an off message to the next on message at most one command is published, for which
the switch had been read before. -/
theorem offSwitch_takes_effect (scene : Scene) (schedule : List Act) :
    (∀ p : List UInt8, p.length < 3 →
      (drawingAfter scene (schedule ++ [.message p])).teasingSw =
        (drawingAfter scene schedule).teasingSw) ∧
    (drawingAfter scene schedule).teasingSw = switchOf (messagesOf schedule) ∧
    arrived (drawingAfter scene schedule).log = messagesOf schedule ∧
    ReadsTrue (drawingAfter scene schedule).log ∧
    OffTakesEffect (drawingAfter scene schedule).log := by
  have h := gatekept_after scene schedule
  have hmessages := arrived_after scene schedule
  refine ⟨?_, hmessages ▸ h.teasingSw_eq, hmessages, h.reads, h.offTakesEffect⟩
  intro p hp
  rw [drawingAfter, run_append_singleton]
  exact if_pos hp

/-! ## The steps of `draw_result` -/

def progress (results : ObjectDetectResultList) (readings : ℕ → Reading) (g : Globals) (i : ℕ) :
    DrawState :=
  (results.reported.take i).zipIdx.foldl (drawEntry readings) (enter g)

section Progress

variable {results : ObjectDetectResultList} {readings readings' : ℕ → Reading} {g : Globals}
  {i : ℕ}

theorem progress_succ {e : ObjectDetectResult} (he : results.reported[i]? = some e) :
    progress results readings g (i + 1) =
      drawEntry readings (progress results readings g i) (e, i) := by
  have hlength : (results.reported.take i).length = i :=
    List.length_take_of_le (List.getElem?_eq_some_iff.mp he).1.le
  unfold progress
  rw [List.take_add_one, he, List.zipIdx_append, List.foldl_append, hlength, Nat.zero_add]
  rfl

theorem progress_end (hend : results.reported[i]? = none) :
    progress results readings g i = drawLoop g results readings := by
  unfold progress drawLoop enter
  rw [List.take_of_length_le (List.getElem?_eq_none_iff.mp hend)]

theorem drawEntry_congr (st : DrawState) {entry : ObjectDetectResult × ℕ}
    (h : readings entry.2 = readings' entry.2) :
    drawEntry readings st entry = drawEntry readings' st entry := by
  unfold drawEntry
  rw [h]

theorem progress_congr (h : ∀ j < i, readings j = readings' j) :
    progress results readings g i = progress results readings' g i := by
  apply List.foldl_ext
  intro st entry hentry
  apply drawEntry_congr
  apply h
  have hlt := List.snd_lt_of_mem_zipIdx hentry
  rw [List.length_take, Nat.add_zero] at hlt
  exact hlt.trans_le (min_le_left _ _)

theorem progress_update (r : Reading) :
    progress results (Function.update readings i r) g i = progress results readings g i := by
  apply progress_congr
  intro j hj
  rw [Function.update_of_ne hj.ne]

end Progress

structure AtCat (results : ObjectDetectResultList) (seen : ℕ → Reading) (draw : DrawState)
    (g : Globals) (i : ℕ) (e : ObjectDetectResult) : Prop where
  entry_eq : results.reported[i]? = some e
  cat : IsCat e
  draw_eq : draw = ((progress results seen g i).locate e).sawCat.target
  due : timeDue draw.globals.usecondLe (seen i).tvUsec

def Stage (results : ObjectDetectResultList) (seen : ℕ → Reading) (draw : DrawState)
    (g : Globals) : DrawPc → Prop
  | .poll => False
  | .entry i => draw = progress results seen g i
  | .read i => ∃ e, AtCat results seen draw g i e
  | .publish i => (∃ e, AtCat results seen draw g i e) ∧ (seen i).teasingSw ≠ 0
  | .select => draw = drawLoop g results seen
  | .aborted => False

def publishedBoxes (log : List Event) : List ImageRect :=
  log.filterMap fun
    | .publish _ _ box => some box
    | _ => none

/-- The calls that have returned did what `draw_result` does, and the call in progress has
done what the loop does up to its entry. -/
structure Drawing (scene : Scene) (s : SwitchState) (g₀ : Globals) (boxes : List ImageRect) :
    Prop where
  run : mainAims s.frames = some (g₀, boxes)
  configured : Configured g₀
  results_eq : s.frames.map (fun f => f.results) =
    (List.range s.frames.length).map scene.results
  published_eq : publishedBoxes s.log = boxes ++ s.draw.aims
  stage : (s.pc = .poll ∧ s.draw = enter g₀) ∨ ∃ g, pollingdecetbox g₀ = some (g, cropRegion) ∧
    Cropped g ∧ Stage (scene.results s.frames.length) s.seen s.draw g s.pc

theorem drawing_init (scene : Scene) :
    Drawing scene .init (imageHanldeInit .static) [] where
  run := rfl
  configured := configured_init
  results_eq := rfl
  published_eq := rfl
  stage := .inl ⟨rfl, rfl⟩

section Drawing

variable {scene : Scene} {s : SwitchState} {g₀ : Globals} {boxes : List ImageRect}

theorem Drawing.message (h : Drawing scene s g₀ boxes) (p : List UInt8) :
    Drawing scene (switchStep scene s (.message p)) g₀ boxes where
  run := h.run
  configured := h.configured
  results_eq := h.results_eq
  published_eq := by
    show publishedBoxes (s.log ++ [.message p]) = _
    rw [publishedBoxes, List.filterMap_append, ← publishedBoxes, h.published_eq]
    exact List.append_nil _
  stage := h.stage

theorem Drawing.move {s' : SwitchState} {g : Globals} (h : Drawing scene s g₀ boxes)
    (hframes : s'.frames = s.frames) (hpub : publishedBoxes s'.log = publishedBoxes s.log)
    (haims : s'.draw.aims = s.draw.aims) (hcrop : pollingdecetbox g₀ = some (g, cropRegion))
    (hg : Cropped g)
    (hstage : Stage (scene.results s.frames.length) s'.seen s'.draw g s'.pc) :
    Drawing scene s' g₀ boxes where
  run := by rw [hframes, h.run]
  configured := h.configured
  results_eq := by rw [hframes, h.results_eq]
  published_eq := by rw [hpub, haims, h.published_eq]
  stage := .inr ⟨g, hcrop, hg, by rw [hframes]; exact hstage⟩

theorem stage_entryStep {g : Globals} {i : ℕ} {e : ObjectDetectResult}
    (he : (scene.results s.frames.length).reported[i]? = some e)
    (hdraw : s.draw = progress (scene.results s.frames.length) s.seen g i) :
    Stage (scene.results s.frames.length) (entryStep scene s i e).seen
      (entryStep scene s i e).draw g (entryStep scene s i e).pc := by
  unfold entryStep
  split
  · rename_i hskip
    show s.draw = progress (scene.results s.frames.length) s.seen g (i + 1)
    rw [progress_succ he, ← hdraw, drawEntry, if_pos hskip]
  · rename_i hskip
    dsimp only
    split
    · rename_i hcat
      dsimp only
      split
      · rename_i hdue
        refine ⟨e, he, hcat, ?_, ?_⟩
        · rw [progress_update, hdraw]
        · rw [Function.update_self]
          exact hdue
      · rename_i hdue
        show _ = progress _ _ g (i + 1)
        rw [progress_succ he, progress_update, ← hdraw, drawEntry_cat hcat, Function.update_self]
        exact (if_neg fun haim => hdue haim.1).symm
    · rename_i hcat
      show _ = progress _ _ g (i + 1)
      rw [progress_succ he, ← hdraw]
      simp only [drawEntry, if_neg hskip, if_neg hcat]

theorem entryStep_aims (scene : Scene) (s : SwitchState) (i : ℕ) (e : ObjectDetectResult) :
    (entryStep scene s i e).draw.aims = s.draw.aims := by
  unfold entryStep
  split
  · rfl
  · dsimp only
    split
    · rfl
    · dsimp only
      split <;> rfl

theorem Drawing.select (h : Drawing scene s g₀ boxes) (hpc : s.pc = .select) {g : Globals}
    (hcrop : pollingdecetbox g₀ = some (g, cropRegion)) (hg : Cropped g)
    (hdraw : s.draw = drawLoop g (scene.results s.frames.length) s.seen) :
    ∃ g₁ boxes₁, Drawing scene (drawStep scene s) g₁ boxes₁ := by
  obtain ⟨st, hresult, hst, -⟩ :=
    drawResult_spec hg.toConfigured (scene.results s.frames.length) s.seen
  obtain ⟨g', hselect, hst'⟩ := Option.bind_eq_some_iff.mp hresult
  have hsame := Option.some.inj hst'
  subst hsame
  rw [← hdraw] at hselect hresult hst
  have hstep : drawStep scene s =
      { s with
        draw := enter
          { g' with detectResult := { g'.detectResult with targetHave := s.draw.haveTarget } }
        frames := s.frames ++ [⟨scene.results s.frames.length, s.seen⟩]
        pc := .poll } := by
    simp only [drawStep, hpc, hselect]
  rw [hstep]
  refine ⟨_, boxes ++ s.draw.aims, ?_, hst, ?_, ?_, .inl ⟨rfl, rfl⟩⟩
  · have hrun : mainAims s.frames = some (g₀, boxes) := h.run
    unfold mainAims at hrun ⊢
    rw [List.foldlM_append, hrun]
    simp only [Option.bind_eq_bind, Option.bind_some, List.foldlM_cons, List.foldlM_nil, aimFrame,
      hcrop, hresult]
    rfl
  · simp only [List.map_append, List.length_append, List.length_singleton, List.range_succ,
      List.map_singleton, h.results_eq]
  · rw [h.published_eq]
    exact (List.append_nil _).symm

theorem AtCat.aim {results : ObjectDetectResultList} {seen : ℕ → Reading} {draw : DrawState}
    {g : Globals} {i : ℕ} {e : ObjectDetectResult} (h : AtCat results seen draw g i e) :
    progress results seen g (i + 1) = draw.aim (seen i) := by
  rw [progress_succ h.entry_eq, drawEntry_cat h.cat, ← h.draw_eq]

theorem AtCat.read {results : ObjectDetectResultList} {seen : ℕ → Reading} {draw : DrawState}
    {g : Globals} {i : ℕ} {e : ObjectDetectResult} (h : AtCat results seen draw g i e) (v : ℤ) :
    AtCat results (Function.update seen i { seen i with teasingSw := v }) draw g i e where
  entry_eq := h.entry_eq
  cat := h.cat
  draw_eq := by rw [progress_update, ← h.draw_eq]
  due := by
    rw [Function.update_self]
    exact h.due

theorem Drawing.poll (h : Drawing scene s g₀ boxes) (hpc : s.pc = .poll)
    (hdraw : s.draw = enter g₀) : Drawing scene (drawStep scene s) g₀ boxes := by
  obtain ⟨g, hcrop, hg, -⟩ := pollingdecetbox_spec h.configured
  have hstep : drawStep scene s = { s with draw := enter g, pc := .entry 0 } := by
    simp only [drawStep, hpc, hdraw, enter, hcrop]
  rw [hstep]
  exact h.move rfl rfl (by rw [hdraw]; rfl) hcrop hg rfl

theorem Drawing.entry {g : Globals} {i : ℕ} (h : Drawing scene s g₀ boxes)
    (hpc : s.pc = .entry i) (hcrop : pollingdecetbox g₀ = some (g, cropRegion)) (hg : Cropped g)
    (hdraw : s.draw = progress (scene.results s.frames.length) s.seen g i) :
    Drawing scene (drawStep scene s) g₀ boxes := by
  cases he : (scene.results s.frames.length).reported[i]? with
  | some e =>
      have hstep : drawStep scene s = entryStep scene s i e := by
        simp only [drawStep, hpc, he]
      obtain ⟨-, hlog, hframes, -⟩ := entryStep_keeps scene s i e
      rw [hstep]
      exact h.move hframes (by rw [hlog]) (entryStep_aims scene s i e) hcrop hg
        (stage_entryStep he hdraw)
  | none =>
      have hstep : drawStep scene s = { s with pc := .select } := by
        simp only [drawStep, hpc, he]
      rw [hstep]
      refine h.move rfl rfl rfl hcrop hg ?_
      show s.draw = _
      rw [← progress_end he]
      exact hdraw

theorem Drawing.read {g : Globals} {i : ℕ} {e : ObjectDetectResult}
    (h : Drawing scene s g₀ boxes) (hpc : s.pc = .read i)
    (hcrop : pollingdecetbox g₀ = some (g, cropRegion)) (hg : Cropped g)
    (hat : AtCat (scene.results s.frames.length) s.seen s.draw g i e) :
    Drawing scene (drawStep scene s) g₀ boxes := by
  simp only [drawStep, hpc]
  refine h.move rfl ?_ rfl hcrop hg ?_
  · simp [publishedBoxes]
  · dsimp only
    split
    · rename_i hon
      exact ⟨⟨e, hat.read s.teasingSw⟩, by rw [Function.update_self]; exact hon⟩
    · rename_i hoff
      show s.draw = progress _ _ g (i + 1)
      rw [(hat.read s.teasingSw).aim, Function.update_self]
      exact (if_neg fun haim => hoff haim.2).symm

theorem Drawing.publish {g : Globals} {i : ℕ} {e : ObjectDetectResult}
    (h : Drawing scene s g₀ boxes) (hpc : s.pc = .publish i)
    (hcrop : pollingdecetbox g₀ = some (g, cropRegion)) (hg : Cropped g)
    (hat : AtCat (scene.results s.frames.length) s.seen s.draw g i e)
    (hon : (s.seen i).teasingSw ≠ 0) : Drawing scene (drawStep scene s) g₀ boxes := by
  have haim : progress (scene.results s.frames.length) s.seen g (i + 1) =
      { s.draw with
        aims := s.draw.aims ++ [located s.draw]
        globals := { s.draw.globals with usecondLe := (s.seen i).tvUsec % 2 ^ 32 } } := by
    rw [hat.aim]
    exact if_pos ⟨hat.due, hon⟩
  simp only [drawStep, hpc]
  refine ⟨h.run, h.configured, h.results_eq, ?_, .inr ⟨g, hcrop, hg, haim.symm⟩⟩
  have hlog := h.published_eq
  unfold publishedBoxes at hlog ⊢
  rw [List.filterMap_append, hlog, List.append_assoc]
  rfl

theorem Drawing.draw (h : Drawing scene s g₀ boxes) :
    ∃ g₁ boxes₁, Drawing scene (drawStep scene s) g₁ boxes₁ := by
  rcases h.stage with ⟨hpc, hdraw⟩ | ⟨g, hcrop, hg, hstage⟩
  · exact ⟨g₀, boxes, h.poll hpc hdraw⟩
  · cases hpc : s.pc with
    | poll | aborted =>
        rw [hpc] at hstage
        exact hstage.elim
    | entry i =>
        rw [hpc] at hstage
        exact ⟨g₀, boxes, h.entry hpc hcrop hg hstage⟩
    | read i =>
        rw [hpc] at hstage
        obtain ⟨e, hat⟩ := hstage
        exact ⟨g₀, boxes, h.read hpc hcrop hg hat⟩
    | publish i =>
        rw [hpc] at hstage
        obtain ⟨⟨e, hat⟩, hon⟩ := hstage
        exact ⟨g₀, boxes, h.publish hpc hcrop hg hat hon⟩
    | select =>
        rw [hpc] at hstage
        exact h.select hpc hcrop hg hstage

end Drawing

/-- **The steps do what `draw_result` does.**  In every interleaving, with what was read from
the clock and the switch, the calls that have returned are a run of `draw_result`, and the
published commands are those of that run and of the call in progress. -/
theorem drawing_after (scene : Scene) (schedule : List Act) :
    ∃ g boxes, Drawing scene (drawingAfter scene schedule) g boxes := by
  apply run_invariant (I := fun s => ∃ g boxes, Drawing scene s g boxes)
    ⟨_, _, drawing_init scene⟩
  rintro s a ⟨g, boxes, h⟩
  cases a with
  | message p => exact ⟨g, boxes, h.message p⟩
  | draw => exact h.draw

end CatDect.Mqtt
