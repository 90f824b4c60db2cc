import CatDect.Mqtt.Turret
import CatDect.Support.Format

/-!
# The messages that are sent

`mqtt_cat_locationreport` and `mqtt_guard_ps_set` print their numbers into a buffer of 64
bytes and send the text.  The buffer is large enough for all arguments, and the text reads
back as the numbers.  For the calls of the pipeline they lie in the range of the turret.
-/

namespace CatDect.Mqtt

open CatDect.Support CatDect.Postprocess CatDect.ImageHandle CatDect.Pipeline

/-! ## The code -/

structure Message where
  topic : List Char
  payload : List Char
  qos : ℕ
  retained : Bool
deriving DecidableEq

def dataBuffSize : ℕ := 64

/-- `data_buff` after `memset` and `sprintf`, if the text and its NUL fit. -/
def dataBuff (format : List Piece) (args : List ℤ) : Option (List Char) :=
  let text := sprintf format args
  if text.length + 1 ≤ dataBuffSize then
    some (text ++ List.replicate (dataBuffSize - text.length) '\x00')
  else none

def strlen (buff : List Char) : ℕ := (buff.takeWhile fun c => c ≠ '\x00').length

/-- The message with the contents of `data_buff`; quality of service and flag are those
of `opts`. -/
def message (topic : List Char) (buff : List Char) : Message :=
  { topic := topic, payload := buff.take (strlen buff), qos := 0, retained := false }

def locationTopic : List Char := "/livingroom/guard/cat/state/ps".toList

def locationFormat : List Piece :=
  [.text ['s', 'X', ':'], .int, .text [' ', 's', 'Y', ':'], .int, .text [' ', 'e', 'X', ':'],
    .int, .text [' ', 'e', 'Y', ':'], .int]

def mqttCatLocationreport (sX sY eX eY : ℤ) : Option Message :=
  (dataBuff locationFormat [sX, sY, eX, eY]).map (message locationTopic)

def coordinateTopic : List Char := "battery1/coordinate".toList

def coordinateFormat : List Piece := [.int, .text [','], .int]

/-- The end of `mqtt_guard_ps_set`. -/
def coordinateMessage (p : Coordinate) : Option Message :=
  (dataBuff coordinateFormat [p.x, p.y]).map (message coordinateTopic)

def guardSend (w : ℤ × List (Option Message)) (box : ImageRect) : ℤ × List (Option Message) :=
  let call := mqttGuardPsSet w.1 box.left box.top box.right box.bottom
  (call.1, w.2 ++ [coordinateMessage call.2])

def sent (boxes : List ImageRect) : List (Option Message) := (boxes.foldl guardSend (5, [])).2

/-! ## The text of a message -/

def IsInt (a : ℤ) : Prop := -2 ^ 31 ≤ a ∧ a < 2 ^ 31

theorem IsInt.lt_pow {a : ℤ} (h : IsInt a) : -10 ^ 10 < a ∧ a < 10 ^ 10 := by
  obtain ⟨hlow, hhigh⟩ := h
  omega

theorem nul_not_mem_sprintf {format : List Piece} (args : List ℤ)
    (hliteral : '\x00' ∉ literal format) : '\x00' ∉ sprintf format args := by
  intro hmem
  rcases mem_sprintf hmem with hl | hsign | hdigit
  · exact hliteral hl
  · exact absurd hsign (by decide)
  · exact absurd hdigit (by decide)

theorem take_strlen {text : List Char} (htext : '\x00' ∉ text) (n : ℕ) :
    (text ++ List.replicate n '\x00').take (strlen (text ++ List.replicate n '\x00')) = text := by
  have hkeep : ∀ c ∈ text, decide (c ≠ '\x00') = true := by
    intro c hc
    exact decide_eq_true fun heq => htext (heq ▸ hc)
  have hstop : (List.replicate n '\x00').takeWhile (fun c => decide (c ≠ '\x00')) = [] := by
    cases n with
    | zero => rfl
    | succ n => rfl
  have hlen : strlen (text ++ List.replicate n '\x00') = text.length := by
    unfold strlen
    rw [List.takeWhile_append_of_pos hkeep, hstop, List.append_nil]
  rw [hlen, List.take_left]

theorem message_reads_back {format : List Piece} {args : List ℤ} (topic : List Char)
    (hformat : Separated format) (hliteral : '\x00' ∉ literal format)
    (hargs : args.length = arity format) (hints : ∀ a ∈ args, -10 ^ 10 < a ∧ a < 10 ^ 10)
    (hsize : (literal format).length + arity format * 11 + 1 ≤ dataBuffSize) :
    ∃ m, (dataBuff format args).map (message topic) = some m ∧ m.topic = topic ∧
      m.payload.length < dataBuffSize ∧ sscanf format m.payload = some args := by
  have hlen := length_sprintf (k := 10) (by decide) hints hargs
  have hfits : (sprintf format args).length + 1 ≤ dataBuffSize := by omega
  have htake := take_strlen (nul_not_mem_sprintf args hliteral)
    (dataBuffSize - (sprintf format args).length)
  refine ⟨_, congrArg (Option.map (message topic)) (if_pos hfits), rfl, ?_, ?_⟩
  · show (List.take _ _).length < dataBuffSize
    rw [htake]
    omega
  · show sscanf format (List.take _ _) = some args
    rw [htake]
    exact sscanf_sprintf hformat hargs

theorem payload_ascii {format : List Piece} {args : List ℤ} {topic : List Char} {m : Message}
    (hm : (dataBuff format args).map (message topic) = some m)
    (hliteral : ∀ c ∈ literal format, c ≠ '\x00' ∧ c.toNat < 128) :
    ∀ c ∈ m.payload, c.toNat < 128 := by
  obtain ⟨buff, hbuff, rfl⟩ := Option.map_eq_some_iff.mp hm
  unfold dataBuff at hbuff
  dsimp only at hbuff
  split at hbuff
  · obtain rfl := Option.some.inj hbuff
    intro c hc
    have htext : c ∈ sprintf format args := by
      rw [← take_strlen (nul_not_mem_sprintf args fun h => (hliteral _ h).1 rfl)
        (dataBuffSize - (sprintf format args).length)]
      exact hc
    rcases mem_sprintf htext with hl | rfl | hdigit
    · exact (hliteral c hl).2
    · decide
    · have hnine := (Char.isDigit_iff_toNat.mp hdigit).2
      exact hnine.trans_lt (by decide)
  · exact nomatch hbuff

/-- **A location report is never cut short.**  For all values of its arguments the text fits
in the buffer and reads back as the four corners. -/
theorem locationreport_reads_back (sX sY eX eY : ℤ)
    (hints : IsInt sX ∧ IsInt sY ∧ IsInt eX ∧ IsInt eY) :
    ∃ m, mqttCatLocationreport sX sY eX eY = some m ∧ m.topic = locationTopic ∧
      m.payload.length < dataBuffSize ∧
      sscanf locationFormat m.payload = some [sX, sY, eX, eY] := by
  obtain ⟨h1, h2, h3, h4⟩ := hints
  apply message_reads_back
  · exact ⟨by decide, by decide, by decide, trivial⟩
  · decide
  · rfl
  · intro a ha
    simp only [List.mem_cons, List.not_mem_nil, or_false] at ha
    rcases ha with rfl | rfl | rfl | rfl
    · exact h1.lt_pow
    · exact h2.lt_pow
    · exact h3.lt_pow
    · exact h4.lt_pow
  · decide

theorem locationreport_reads_back_corner :
    (IsInt (-2147483648) ∧ IsInt 2147483647 ∧ IsInt 0 ∧ IsInt (-1)) ∧
      ∃ m, mqttCatLocationreport (-2147483648) 2147483647 0 (-1) = some m ∧
        m.topic = locationTopic ∧ m.payload.length < dataBuffSize ∧
        sscanf locationFormat m.payload = some [-2147483648, 2147483647, 0, -1] := by
  have hints : IsInt (-2147483648) ∧ IsInt 2147483647 ∧ IsInt 0 ∧ IsInt (-1) := by
    unfold IsInt
    omega
  exact ⟨hints, locationreport_reads_back _ _ _ _ hints⟩

/-! ## The coordinates of a call -/

theorem shakeAfter_bound (n : ℕ) : -5 ≤ shakeAfter n ∧ shakeAfter n ≤ 5 := by
  unfold shakeAfter
  split_ifs <;> omega

theorem mqttGuardPsSet_isInt {shakeVal : ℤ} {box : ImageRect} (hbox : InFrame box)
    (hshake : -5 ≤ shakeVal ∧ shakeVal ≤ 5) :
    IsInt (mqttGuardPsSet shakeVal box.left box.top box.right box.bottom).2.x ∧
      IsInt (mqttGuardPsSet shakeVal box.left box.top box.right box.bottom).2.y := by
  obtain ⟨h1, h2, h3, h4, h5, h6⟩ := hbox
  unfold rawImageWidth at h3
  unfold rawImageHeight at h6
  rw [mqttGuardPsSet_eq (by omega) h1 h4]
  unfold IsInt
  dsimp only
  omega

structure CarriesPair (m : Message) (p : Coordinate) : Prop where
  topic_eq : m.topic = coordinateTopic
  qos_eq : m.qos = 0
  short : m.payload.length < dataBuffSize
  ascii : ∀ c ∈ m.payload, c.toNat < 128
  scan_eq : sscanf coordinateFormat m.payload = some [p.x, p.y]

theorem coordinateMessage_carries {p : Coordinate} (hx : IsInt p.x) (hy : IsInt p.y) :
    ∃ m, coordinateMessage p = some m ∧ CarriesPair m p := by
  have hargs : ∀ a ∈ [p.x, p.y], -10 ^ 10 < a ∧ a < 10 ^ 10 := by
    intro a ha
    rcases List.mem_pair.mp ha with rfl | rfl
    · exact hx.lt_pow
    · exact hy.lt_pow
  have hseparated : Separated coordinateFormat := ⟨by decide, trivial⟩
  obtain ⟨m, hm, htopic, hshort, hscan⟩ := message_reads_back coordinateTopic hseparated
    (by decide) rfl hargs (by decide)
  have hliteral : ∀ c ∈ literal coordinateFormat, c ≠ '\x00' ∧ c.toNat < 128 := by
    intro c hc
    have hcomma : c = ',' := List.mem_singleton.mp hc
    subst hcomma
    exact ⟨by decide, by decide⟩
  refine ⟨m, hm, htopic, ?_, hshort, payload_ascii hm hliteral, hscan⟩
  obtain ⟨buff, -, rfl⟩ := Option.map_eq_some_iff.mp hm
  rfl

/-! ## Sequences of calls -/

theorem guardSends_eq (boxes : List ImageRect) :
    boxes.foldl guardSend (5, []) =
      (shakeAfter boxes.length, (published boxes).map coordinateMessage) := by
  induction boxes using List.reverseRecOn with
  | nil => rfl
  | append_singleton boxes box ih =>
      have hpublished : published (boxes ++ [box]) = published boxes ++
          [(mqttGuardPsSet (shakeAfter boxes.length) box.left box.top box.right box.bottom).2] := by
        unfold published
        rw [List.foldl_append, guardCalls_eq]
        rfl
      rw [List.foldl_append, ih, hpublished, List.length_append, List.length_singleton,
        shakeAfter_succ, List.map_append]
      rfl

theorem sent_eq (boxes : List ImageRect) :
    sent boxes = (published boxes).map coordinateMessage := by
  rw [sent, guardSends_eq]

def angles (n : ℕ) (box : ImageRect) : Coordinate :=
  (mqttGuardPsSet (shakeAfter n) box.left box.top box.right box.bottom).2

theorem getElem?_published {boxes : List ImageRect} {k : ℕ} {box : ImageRect}
    (hk : boxes[k]? = some box) : (published boxes)[k]? = some (angles k box) := by
  rw [published, guardCalls_eq, List.getElem?_map, List.getElem?_zipIdx, hk]
  simp [angles]

theorem sent_carries {boxes : List ImageRect} (hboxes : ∀ box ∈ boxes, InFrame box) {k : ℕ}
    {box : ImageRect} (hk : boxes[k]? = some box) :
    ∃ m, (sent boxes)[k]? = some (some m) ∧ CarriesPair m (angles k box) := by
  have hbound := mqttGuardPsSet_isInt (hboxes box (List.mem_of_getElem? hk)) (shakeAfter_bound k)
  obtain ⟨m, hm, hcarries⟩ := coordinateMessage_carries hbound.1 hbound.2
  refine ⟨m, ?_, hcarries⟩
  rw [sent_eq, List.getElem?_map, getElem?_published hk, Option.map_some]
  exact congrArg some hm

/-! ## The calls of the pipeline -/

def aims (s : State) : List ImageRect := s.drawn.flatMap fun d => d.aims

/-- The box is that of a cat or dog of the list, in the camera frame. -/
def FromCat (l : ObjectDetectResultList) (box : ImageRect) : Prop :=
  ∃ e ∈ l.reported, IsCat e ∧ box = localise 420 e.box

def AimedAtCats (s : State) : Prop :=
  ∀ d ∈ s.drawn, Mappable d.result.list ∧ ∀ box ∈ d.aims, FromCat d.result.list box

theorem drawResult_fromCat {g : Globals} (hg : Cropped g) {l : ObjectDetectResultList}
    (hl : Mappable l) {readings : ℕ → Reading} {st : DrawState}
    (hdraw : drawResult g l readings = some st) : ∀ box ∈ st.aims, FromCat l box := by
  obtain ⟨st', hdraw', -, -, haims, -⟩ := drawResult_spec hg.toConfigured l readings
  obtain rfl := Option.some.inj (hdraw.symm.trans hdraw')
  intro box hbox
  obtain ⟨e, he, rfl⟩ := List.mem_map.mp (haims.subset hbox)
  obtain ⟨hmem, hcat⟩ := List.mem_filter.mp he
  exact ⟨e, hmem, of_decide_eq_true hcat, mapBox_eq_localise hg (hl e hmem)⟩

theorem aimedAtCats_step {env : Env} {s : State} (hc : Control s) (hm : Mapped s)
    (h : AimedAtCats s) (p : Proc) : AimedAtCats (step env s p) := by
  cases p with
  | thread =>
      show AimedAtCats (threadStep env s)
      rw [AimedAtCats, (threadKeeps env s).drawn_eq]
      exact h
  | main =>
      show AimedAtCats (mainStep env s)
      by_cases hpc : s.main = .draw
      · obtain ⟨st, hdraw, -, hstep⟩ := hc.toMainSide.draw env hpc
        have hg : Cropped s.globals := hc.cropped (by simp [hpc])
        rw [hstep]
        intro d hd
        rcases List.mem_append.mp hd with hd | hd
        · exact h d hd
        · rw [List.mem_singleton.mp hd]
          exact ⟨hm.runResult, drawResult_fromCat hg hm.runResult hdraw⟩
      · rw [AimedAtCats, mainStep_drawn hpc]
        exact h

theorem aimedAtCats_after {env : Env} (hproduced : ∀ n, Produced (env.postProcess n))
    (schedule : List Proc) : AimedAtCats (after env schedule) := by
  have hstep : ∀ s p, (Control s ∧ Mapped s) ∧ AimedAtCats s →
      (Control (step env s p) ∧ Mapped (step env s p)) ∧ AimedAtCats (step env s p) := by
    rintro s p ⟨⟨hc, hm⟩, h⟩
    refine ⟨⟨hc.step p, ?_⟩, aimedAtCats_step hc hm h p⟩
    cases p with
    | main => exact hm.mainStep hc
    | thread => exact hm.threadStep hproduced
  exact (run_invariant (I := fun s => (Control s ∧ Mapped s) ∧ AimedAtCats s)
    ⟨⟨control_init, mapped_init⟩, fun _ hd => absurd hd List.not_mem_nil⟩ hstep schedule).2

theorem sent_after {env : Env} (hproduced : ∀ n, Produced (env.postProcess n))
    (schedule : List Proc) {k : ℕ} {box : ImageRect}
    (hk : (aims (after env schedule))[k]? = some box) :
    (∃ d ∈ (after env schedule).drawn, FromCat d.result.list box) ∧
      (angles k box).InTurretRange ∧
      ∃ m, (sent (aims (after env schedule)))[k]? = some (some m) ∧
        CarriesPair m (angles k box) := by
  have haimed := aimedAtCats_after hproduced schedule
  have hcrop : ∀ b ∈ aims (after env schedule), InCrop 420 b ∧
      ∃ d ∈ (after env schedule).drawn, FromCat d.result.list b := by
    intro b hb
    obtain ⟨d, hd, hbox⟩ := List.mem_flatMap.mp hb
    obtain ⟨hmap, hcats⟩ := haimed d hd
    obtain ⟨e, he, hcat, rfl⟩ := hcats b hbox
    exact ⟨localise_inCrop (hmap e he), d, hd, e, he, hcat, rfl⟩
  have hframe : ∀ b ∈ aims (after env schedule), InFrame b :=
    fun b hb => (hcrop b hb).1.inFrame (by decide)
  have hrange := published_of_inCrop fun b hb => (hcrop b hb).1
  exact ⟨(hcrop box (List.mem_of_getElem? hk)).2,
    hrange _ (List.mem_of_getElem? (getElem?_published hk)), sent_carries hframe hk⟩

end CatDect.Mqtt
