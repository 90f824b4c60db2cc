import CatDect.Mqtt.Framing
import CatDect.Mqtt.Payload
import CatDect.Mqtt.Properties
import Mathlib.Data.List.TakeWhile

/-!
# PUBLISH packets

`MQTTPacket_send_publish` writes a packet, `MQTTPacket_Factory` finds it in a stream and
`MQTTPacket_publish` takes it apart.  A coordinate for the turret survives the way over the
wire.
-/

namespace CatDect.Mqtt

open CatDect.Support CatDect.Support.Reader CatDect.Postprocess CatDect.ImageHandle
open CatDect.Pipeline

/-! ## The code -/

structure Publish where
  retain : Bool
  qos : ℕ
  dup : Bool
  topic : List UInt8
  msgId : ℕ
  version : ℕ
  properties : MQTTProperties
  payload : List UInt8

def publishType : ℕ := 3

def headerByte (type : ℕ) (dup : Bool) (qos : ℕ) (retained : Bool) : UInt8 :=
  UInt8.ofNat (retained.toNat + 2 * (qos % 4) + 8 * dup.toNat + 16 * type)

/-- The four buffers of `MQTTPacket_send_publish`, one after another; the third is empty below
version 5 if there is no message id. -/
def publishBody (pack : Publish) (qos : ℕ) : List UInt8 :=
  let topic := pack.topic.takeWhile fun c => c ≠ 0
  writeInt topic.length ++ topic ++
    ((if 0 < qos then writeInt pack.msgId else []) ++
      if 5 ≤ pack.version then mqttPropertiesWrite pack.properties else []) ++
    pack.payload

def mqttPacketSendPublish (pack : Publish) (dup : Bool) (qos : ℕ) (retained : Bool) :
    List UInt8 :=
  mqttPacketSends (headerByte publishType dup qos retained) (publishBody pack qos)

def rest : Reader UInt8 (List UInt8) := fun l => .done l []

/-- There is a message id only for quality of service 1 and 2. -/
def readMsgId (qos : ℕ) : Reader UInt8 ℕ :=
  if 0 < qos then do
    let left ← remaining
    if left < 2 then refuse else readInt
  else pure 0

def readVersionProperties (version : ℕ) : Reader UInt8 MQTTProperties :=
  if 5 ≤ version then mqttPropertiesRead else pure .initializer

def mqttPacketPublish (version : ℕ) (aHeader : UInt8) : Reader UInt8 Publish := do
  let qos := aHeader.toNat / 2 % 4
  let topic ← readUTFlen
  let msgId ← readMsgId qos
  let properties ← readVersionProperties version
  let payload ← rest
  pure
    { retain := decide (aHeader.toNat % 2 = 1)
      qos := qos
      dup := decide (aHeader.toNat / 8 % 2 = 1)
      topic := topic
      msgId := msgId
      version := version
      properties := properties
      payload := payload }

/-! ## The round trip -/

/-- A packet for which the format has room. -/
structure Sendable (pack : Publish) (qos : ℕ) : Prop where
  topic_text : 0 ∉ pack.topic
  topic_short : pack.topic.length < 65536
  qos_le : qos ≤ 2
  msgId_lt : pack.msgId < 65536
  properties_eq : ∃ array, (∀ prop ∈ array, prop.Fits) ∧ totalLen array < 268435456 ∧
    pack.properties = collected array
  body_short : (publishBody pack qos).length < 268435456

def received (pack : Publish) (dup : Bool) (qos : ℕ) (retained : Bool) : Publish :=
  { pack with
    retain := retained
    qos := qos
    dup := dup
    msgId := if 0 < qos then pack.msgId else 0
    properties := if 5 ≤ pack.version then pack.properties else .initializer }

theorem headerByte_bits (dup : Bool) {qos : ℕ} (h : qos ≤ 2) (retained : Bool) :
    let byte := (headerByte publishType dup qos retained).toNat
    byte / 16 = publishType ∧ decide (byte % 2 = 1) = retained ∧ byte / 2 % 4 = qos ∧
      decide (byte / 8 % 2 = 1) = dup := by
  obtain rfl | rfl | rfl : qos = 0 ∨ qos = 1 ∨ qos = 2 := by omega
  all_goals cases dup <;> cases retained <;> decide

theorem publishBody_eq {pack : Publish} {qos : ℕ} (h : Sendable pack qos) :
    publishBody pack qos = writeInt pack.topic.length ++ pack.topic ++
      ((if 0 < qos then writeInt pack.msgId else []) ++
        if 5 ≤ pack.version then mqttPropertiesWrite pack.properties else []) ++ pack.payload := by
  have htext : pack.topic.takeWhile (fun c => decide (c ≠ 0)) = pack.topic := by
    apply List.takeWhile_eq_self_iff.mpr
    intro c hc
    exact decide_eq_true fun heq => h.topic_text (heq ▸ hc)
  unfold publishBody
  rw [htext]

theorem publish_of_body {pack : Publish} {qos : ℕ} (h : Sendable pack qos) (dup retained : Bool) :
    mqttPacketPublish pack.version (headerByte publishType dup qos retained)
      (publishBody pack qos) = .done (received pack dup qos retained) [] := by
  obtain ⟨-, hretain, hqos, hdup⟩ := headerByte_bits dup h.qos_le retained
  obtain ⟨array, hfits, htotal, hproperties⟩ := h.properties_eq
  have hid : Reads (readMsgId qos) (if 0 < qos then writeInt pack.msgId else [])
      (if 0 < qos then pack.msgId else 0) := by
    unfold readMsgId
    split
    · apply reads_remaining
      intro left hleft
      rw [length_writeInt] at hleft
      rw [if_neg (Nat.not_lt.mpr hleft)]
      exact reads_int h.msgId_lt
    · exact reads_pure 0
  have hprops : Reads (readVersionProperties pack.version)
      (if 5 ≤ pack.version then mqttPropertiesWrite pack.properties else [])
      (if 5 ≤ pack.version then pack.properties else .initializer) := by
    unfold readVersionProperties
    split
    · rw [hproperties]
      exact reads_properties hfits htotal
    · exact reads_pure _
  unfold mqttPacketPublish
  rw [publishBody_eq h, hqos, hretain, hdup, List.append_assoc (_ ++ _),
    List.append_assoc (ite _ _ _)]
  exact bind_done_iff.mpr ⟨_, _, reads_lenDelimited h.topic_short _,
    bind_done_iff.mpr ⟨_, _, hid _, bind_done_iff.mpr ⟨_, _, hprops _, rfl⟩⟩⟩

/-- **A PUBLISH packet reads back.**  Whatever follows it in the stream, the packet is cut
out of it at its end and taken apart into the fields it was made of. -/
theorem publish_reads_back (pack : Publish) (dup : Bool) (qos : ℕ) (retained : Bool)
    (h : Sendable pack qos) (after : List UInt8) :
    ∃ header body, readPacket (mqttPacketSendPublish pack dup qos retained ++ after) =
        .done (header, body) after ∧ header.toNat / 16 = publishType ∧
      mqttPacketPublish pack.version header body = .done (received pack dup qos retained) [] :=
  ⟨_, _, reads_packet _ h.body_short after, (headerByte_bits dup h.qos_le retained).1,
    publish_of_body h dup retained⟩

def acknowledgedPack : Publish where
  retain := false
  qos := 0
  dup := false
  topic := [97, 47, 98]
  msgId := 258
  version := 5
  properties := collected expiryAndUser
  payload := [0, 255]

theorem sendable_acknowledgedPack : Sendable acknowledgedPack 1 where
  topic_text := by decide
  topic_short := by decide
  qos_le := by decide
  msgId_lt := by decide
  properties_eq := ⟨expiryAndUser, expiryAndUser_fits, by decide, rfl⟩
  body_short := by
    have hbytes : (mqttPropertiesWrite acknowledgedPack.properties).length = 14 :=
      length_mqttPropertiesWrite expiryAndUser_fits (by decide)
    have hversion : 5 ≤ acknowledgedPack.version := Nat.le_refl 5
    unfold publishBody
    simp only [List.length_append, length_writeInt, Nat.zero_lt_one, if_true, if_pos hversion,
      hbytes]
    decide

theorem publish_reads_back_acknowledgedPack :
    Sendable acknowledgedPack 1 ∧
      ∃ header body, readPacket (mqttPacketSendPublish acknowledgedPack true 1 false ++ [192, 0]) =
          .done (header, body) [192, 0] ∧ header.toNat / 16 = publishType ∧
        mqttPacketPublish acknowledgedPack.version header body =
          .done (received acknowledgedPack true 1 false) [] :=
  ⟨sendable_acknowledgedPack,
    publish_reads_back acknowledgedPack true 1 false sendable_acknowledgedPack [192, 0]⟩

/-! ## The coordinates on the wire -/

def bytes (text : List Char) : List UInt8 := text.map fun c => UInt8.ofNat c.toNat

def chars (data : List UInt8) : List Char := data.map fun b => Char.ofNat b.toNat

/-- `pub_opts.properties` after `mqtt_init`; `opts.message_expiry` is 0. -/
def pubProperties : MQTTProperties := mqttPropertiesAdd .initializer (expiryProperty 0)

/-- The packet that `MQTTAsync_processCommand` makes of what `MQTTAsync_send` has queued. -/
def publishOf (m : Message) : Publish where
  retain := false
  qos := 0
  dup := false
  topic := bytes m.topic
  msgId := 0
  version := 5
  properties := mqttPropertiesCopy pubProperties
  payload := bytes m.payload

def onTheWire (m : Message) : List UInt8 :=
  mqttPacketSendPublish (publishOf m) false m.qos m.retained

theorem chars_bytes {text : List Char} (h : ∀ c ∈ text, c.toNat < 128) :
    chars (bytes text) = text := by
  induction text with
  | nil => rfl
  | cons c text ih =>
      have hc : (UInt8.ofNat c.toNat).toNat = c.toNat :=
        toNat_ofNat ((h c List.mem_cons_self).trans (by decide))
      have htail := ih fun d hd => h d (List.mem_cons_of_mem c hd)
      show Char.ofNat (UInt8.ofNat c.toNat).toNat :: chars (bytes text) = c :: text
      rw [hc, Char.ofNat_toNat, htail]

theorem sendable_publishOf {m : Message} {p : Coordinate} (h : CarriesPair m p) :
    Sendable (publishOf m) 0 := by
  have htopic : (publishOf m).topic = bytes coordinateTopic := congrArg bytes h.topic_eq
  have hcollected : (publishOf m).properties = collected [expiryProperty 0] := rfl
  have hfits : ∀ prop ∈ [expiryProperty 0], prop.Fits := by
    intro prop hprop
    rw [List.mem_singleton.mp hprop]
    exact trivial
  have hbytes : (mqttPropertiesWrite (publishOf m).properties).length = 6 := by
    rw [hcollected, length_mqttPropertiesWrite hfits (by decide)]
    rfl
  constructor
  · rw [htopic]
    decide
  · rw [htopic]
    decide
  · decide
  · exact Nat.zero_lt_succ 65535
  · exact ⟨[expiryProperty 0], hfits, by decide, hcollected⟩
  · have hpayload : (publishOf m).payload.length < 64 := by
      show (bytes m.payload).length < 64
      rw [bytes, List.length_map]
      exact h.short
    have htext : ((publishOf m).topic.takeWhile fun c => decide (c ≠ 0)).length ≤ 19 := by
      rw [htopic]
      exact (List.takeWhile_sublist _).length_le
    have hversion : 5 ≤ (publishOf m).version := Nat.le_refl 5
    unfold publishBody
    simp only [List.length_append, length_writeInt, Nat.lt_irrefl, if_false, List.length_nil,
      if_pos hversion, hbytes]
    omega

/-- **A coordinate survives the wire.**  In every run of the pipeline, the packet of every
call is cut out of the stream, whatever follows, and taken apart; its payload reads back as
the angles of a box for which the call was made, in the range of the turret. -/
theorem coordinate_survives_wire (env : Env) (hproduced : ∀ n, Produced (env.postProcess n))
    (schedule : List Proc) (k : ℕ) (box : ImageRect)
    (hk : (aims (after env schedule))[k]? = some box) (following : List UInt8) :
    (∃ d ∈ (after env schedule).drawn, FromCat d.result.list box) ∧
      (angles k box).InTurretRange ∧
      ∃ (m : Message) (header : UInt8) (body : List UInt8) (pack : Publish),
        (sent (aims (after env schedule)))[k]? = some (some m) ∧
          readPacket (onTheWire m ++ following) = .done (header, body) following ∧
          mqttPacketPublish 5 header body = .done pack [] ∧
          pack.topic = bytes coordinateTopic ∧
          sscanf coordinateFormat (chars pack.payload) =
            some [(angles k box).x, (angles k box).y] := by
  obtain ⟨hcat, hrange, m, hm, hcarries⟩ := sent_after hproduced schedule hk
  have hqos := hcarries.qos_eq
  refine ⟨hcat, hrange, m, headerByte publishType false m.qos m.retained,
    publishBody (publishOf m) m.qos, received (publishOf m) false m.qos m.retained, hm, ?_⟩
  rw [onTheWire, hqos]
  have hsendable := sendable_publishOf hcarries
  refine ⟨reads_packet _ hsendable.body_short following,
    publish_of_body hsendable false m.retained, congrArg bytes hcarries.topic_eq, ?_⟩
  show sscanf coordinateFormat (chars (bytes m.payload)) = _
  rw [chars_bytes hcarries.ascii]
  exact hcarries.scan_eq

def aimingEnv : Env := { oneCatEnv with readings := fun _ _ => ⟨0, 500000, 1⟩ }

def catDrawn : List Proc := steps .main 6 ++ steps .thread 6 ++ steps .main 4

def catAim : ImageRect := localise 420 { left := 0, top := 0, right := 5, bottom := 6 }

theorem coordinate_survives_wire_catAim :
    ((∀ n, Produced (aimingEnv.postProcess n)) ∧
        (aims (after aimingEnv catDrawn))[0]? = some catAim) ∧
      (∃ d ∈ (after aimingEnv catDrawn).drawn, FromCat d.result.list catAim) ∧
        (angles 0 catAim).InTurretRange ∧
        ∃ (m : Message) (header : UInt8) (body : List UInt8) (pack : Publish),
          (sent (aims (after aimingEnv catDrawn)))[0]? = some (some m) ∧
            readPacket (onTheWire m ++ [208, 0]) = .done (header, body) [208, 0] ∧
            mqttPacketPublish 5 header body = .done pack [] ∧
            pack.topic = bytes coordinateTopic ∧
            sscanf coordinateFormat (chars pack.payload) =
              some [(angles 0 catAim).x, (angles 0 catAim).y] := by
  have hproduced : ∀ n, Produced (aimingEnv.postProcess n) := fun _ => oneCatList_produced
  have haim : (aims (after aimingEnv catDrawn))[0]? = some catAim := by decide +kernel
  exact ⟨⟨hproduced, haim⟩,
    coordinate_survives_wire aimingEnv hproduced catDrawn 0 catAim haim [208, 0]⟩

end CatDect.Mqtt
