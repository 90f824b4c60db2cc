import CatDect.Mqtt.Wire
import Mathlib.Data.List.Induction

/-!
# Property lists

The MQTT 5 properties of a packet, as `MQTTProperties.c` collects, writes and reads them.
A list that was collected property by property is written with exactly the length announced
for it and reads back, and a list that was read has filled the announced length.
-/

namespace CatDect.Mqtt

open CatDect.Support CatDect.Support.Reader

/-! ## The code -/

inductive PropertyType
  | byte
  | twoByteInteger
  | fourByteInteger
  | variableByteInteger
  | binaryData
  | utf8EncodedString
  | utf8StringPair
deriving DecidableEq

/-- The member of the union for each type. -/
def PropertyType.Value : PropertyType → Type
  | byte => UInt8
  | twoByteInteger => UInt16
  | fourByteInteger | variableByteInteger => UInt32
  | binaryData | utf8EncodedString => MQTTLenString
  | utf8StringPair => MQTTLenString × MQTTLenString

inductive PropertyCode
  | payloadFormatIndicator
  | messageExpiryInterval
  | contentType
  | responseTopic
  | correlationData
  | subscriptionIdentifier
  | sessionExpiryInterval
  | assignedClientIdentifer
  | serverKeepAlive
  | authenticationMethod
  | authenticationData
  | requestProblemInformation
  | willDelayInterval
  | requestResponseInformation
  | responseInformation
  | serverReference
  | reasonString
  | receiveMaximum
  | topicAliasMaximum
  | topicAlias
  | maximumQos
  | retainAvailable
  | userProperty
  | maximumPacketSize
  | wildcardSubscriptionAvailable
  | subscriptionIdentifiersAvailable
  | sharedSubscriptionAvailable

def PropertyCode.code : PropertyCode → ℕ
  | payloadFormatIndicator => 1
  | messageExpiryInterval => 2
  | contentType => 3
  | responseTopic => 8
  | correlationData => 9
  | subscriptionIdentifier => 11
  | sessionExpiryInterval => 17
  | assignedClientIdentifer => 18
  | serverKeepAlive => 19
  | authenticationMethod => 21
  | authenticationData => 22
  | requestProblemInformation => 23
  | willDelayInterval => 24
  | requestResponseInformation => 25
  | responseInformation => 26
  | serverReference => 28
  | reasonString => 31
  | receiveMaximum => 33
  | topicAliasMaximum => 34
  | topicAlias => 35
  | maximumQos => 36
  | retainAvailable => 37
  | userProperty => 38
  | maximumPacketSize => 39
  | wildcardSubscriptionAvailable => 40
  | subscriptionIdentifiersAvailable => 41
  | sharedSubscriptionAvailable => 42

def namesToTypes : List (PropertyCode × PropertyType) :=
  [(.payloadFormatIndicator, .byte),
    (.messageExpiryInterval, .fourByteInteger),
    (.contentType, .utf8EncodedString),
    (.responseTopic, .utf8EncodedString),
    (.correlationData, .binaryData),
    (.subscriptionIdentifier, .variableByteInteger),
    (.sessionExpiryInterval, .fourByteInteger),
    (.assignedClientIdentifer, .utf8EncodedString),
    (.serverKeepAlive, .twoByteInteger),
    (.authenticationMethod, .utf8EncodedString),
    (.authenticationData, .binaryData),
    (.requestProblemInformation, .byte),
    (.willDelayInterval, .fourByteInteger),
    (.requestResponseInformation, .byte),
    (.responseInformation, .utf8EncodedString),
    (.serverReference, .utf8EncodedString),
    (.reasonString, .utf8EncodedString),
    (.receiveMaximum, .twoByteInteger),
    (.topicAliasMaximum, .twoByteInteger),
    (.topicAlias, .twoByteInteger),
    (.maximumQos, .byte),
    (.retainAvailable, .byte),
    (.userProperty, .utf8StringPair),
    (.maximumPacketSize, .fourByteInteger),
    (.wildcardSubscriptionAvailable, .byte),
    (.subscriptionIdentifiersAvailable, .byte),
    (.sharedSubscriptionAvailable, .byte)]

/-- `none` stands for -1. -/
def mqttPropertyGetType (value : ℕ) : Option PropertyType :=
  (namesToTypes.find? fun entry => decide (entry.1.code = value)).map fun entry => entry.2

/-- A property with an identifier of the table and a value of its type. -/
structure MQTTProperty where
  identifier : ℕ
  type : PropertyType
  typed : mqttPropertyGetType identifier = some type
  value : type.Value

structure MQTTProperties where
  length : ℕ
  array : List MQTTProperty

def MQTTProperties.initializer : MQTTProperties := { length := 0, array := [] }

def mqttPropertiesLen (props : MQTTProperties) : ℕ :=
  props.length + mqttPacketVBIlen props.length

/-- The `len` that `MQTTProperties_add` calculates. -/
def valueLen : (type : PropertyType) → type.Value → ℕ
  | .byte, _ => 1
  | .twoByteInteger, _ => 2
  | .fourByteInteger, _ => 4
  | .variableByteInteger, (integer4 : UInt32) => mqttPacketVBIlen integer4.toInt32.toInt
  | .binaryData, (data : MQTTLenString) => 2 + data.len
  | .utf8EncodedString, (data : MQTTLenString) => 2 + data.len
  | .utf8StringPair, ((data, value) : MQTTLenString × MQTTLenString) =>
      2 + data.len + (2 + value.len)

def mqttPropertiesAdd (props : MQTTProperties) (prop : MQTTProperty) : MQTTProperties where
  length := props.length + (valueLen prop.type prop.value + 1)
  array := props.array ++ [prop]

def mqttPropertiesCopy (props : MQTTProperties) : MQTTProperties :=
  props.array.foldl mqttPropertiesAdd .initializer

def writeValue : (type : PropertyType) → type.Value → List UInt8
  | .byte, (byte : UInt8) => writeChar byte
  | .twoByteInteger, (integer2 : UInt16) => writeInt integer2.toNat
  | .fourByteInteger, (integer4 : UInt32) => writeInt4 integer4.toNat
  | .variableByteInteger, (integer4 : UInt32) => mqttPacketEncode integer4.toNat
  | .binaryData, (data : MQTTLenString) => writeMQTTLenString data
  | .utf8EncodedString, (data : MQTTLenString) => writeMQTTLenString data
  | .utf8StringPair, ((data, value) : MQTTLenString × MQTTLenString) =>
      writeMQTTLenString data ++ writeMQTTLenString value

def mqttPropertyWrite (prop : MQTTProperty) : List UInt8 :=
  writeChar (UInt8.ofNat prop.identifier) ++ writeValue prop.type prop.value

def mqttPropertiesWrite (properties : MQTTProperties) : List UInt8 :=
  mqttPacketEncode properties.length ++ properties.array.flatMap mqttPropertyWrite

def readValue : (type : PropertyType) → Reader UInt8 (type.Value × ℕ)
  | .byte => do
      let byte ← readChar
      pure (byte, 1)
  | .twoByteInteger => do
      let integer2 ← readInt
      pure (UInt16.ofNat integer2, 2)
  | .fourByteInteger => do
      let integer4 ← readInt4
      pure (UInt32.ofNat integer4, 4)
  | .variableByteInteger => do
      let (integer4, len) ← mqttPacketDecodeBuf
      let _ ← items len
      pure (UInt32.ofNat integer4, len)
  | .binaryData => mqttLenStringRead
  | .utf8EncodedString => mqttLenStringRead
  | .utf8StringPair => do
      let (data, len) ← mqttLenStringRead
      let (value, proplen) ← mqttLenStringRead
      pure ((data, value), len + proplen)

def mqttPropertyRead : Reader UInt8 (MQTTProperty × ℕ) := do
  let identifier ← readChar
  match h : mqttPropertyGetType identifier.toNat with
  | none => refuse
  | some type => do
      let (value, len) ← readValue type
      pure (⟨identifier.toNat, type, h, value⟩, len + 1)

/-- The loop of `MQTTProperties_read`; `remlength` is unsigned.  A round takes a byte at
least, so there are no more rounds than bytes. -/
def propertiesLoop : ℕ → ℕ → List MQTTProperty → Reader UInt8 (List MQTTProperty)
  | _, 0, array => pure array
  | 0, _ + 1, _ => fun _ => .outside
  | rounds + 1, remlength + 1, array => do
      let (prop, proplen) ← mqttPropertyRead
      propertiesLoop rounds ((remlength + 1 + 4294967296 - proplen) % 4294967296) (array ++ [prop])

def mqttPropertiesRead : Reader UInt8 MQTTProperties := do
  let left ← remaining
  if 0 < left then
    let (remlength, len) ← mqttPacketDecodeBuf
    let _ ← items len
    let left ← remaining
    let array ← propertiesLoop left remlength []
    pure { length := remlength, array := array }
  else refuse

/-! ## One property -/

def Fits : (type : PropertyType) → type.Value → Prop
  | .byte, _ | .twoByteInteger, _ | .fourByteInteger, _ => True
  | .variableByteInteger, (integer4 : UInt32) => integer4.toNat < 268435456
  | .binaryData, (data : MQTTLenString) => data.len < 65536
  | .utf8EncodedString, (data : MQTTLenString) => data.len < 65536
  | .utf8StringPair, ((data, value) : MQTTLenString × MQTTLenString) =>
      data.len < 65536 ∧ value.len < 65536

theorem toInt_of_lt {n : UInt32} (h : n.toNat < 268435456) : n.toInt32.toInt = n.toNat := by
  have hbits : n.toInt32.toInt = n.toBitVec.toInt := rfl
  have hnat : n.toBitVec.toNat = n.toNat := rfl
  rw [hbits, BitVec.toInt_eq_toNat_of_lt, hnat]
  omega

theorem reads_variable {integer4 : UInt32} (h : integer4.toNat < 268435456) :
    Reads (readValue .variableByteInteger) (mqttPacketEncode integer4.toNat)
      (integer4, mqttPacketVBIlen integer4.toNat) := by
  have hitems := (reads_items (mqttPacketEncode integer4.toNat)).map
    fun _ => (UInt32.ofNat integer4.toNat, (mqttPacketEncode integer4.toNat).length)
  rw [length_encode h] at hitems
  rw [UInt32.ofNat_toNat] at hitems
  apply reads_peek (List.append_nil _).symm (reads_vbi h)
  dsimp only
  rw [UInt32.ofNat_toNat]
  exact hitems

theorem reads_value (type : PropertyType) (value : type.Value) (h : Fits type value) :
    Reads (readValue type) (writeValue type value) (value, valueLen type value) := by
  cases type with
  | byte => exact (reads_item value).map fun byte => (byte, 1)
  | twoByteInteger =>
      change UInt16 at value
      have hread := (reads_int value.toNat_lt).map fun integer2 => (UInt16.ofNat integer2, 2)
      rw [UInt16.ofNat_toNat] at hread
      exact hread
  | fourByteInteger =>
      change UInt32 at value
      have hread := (reads_int4 value.toNat_lt).map fun integer4 => (UInt32.ofNat integer4, 4)
      rw [UInt32.ofNat_toNat] at hread
      exact hread
  | variableByteInteger =>
      change UInt32 at value
      show Reads _ _ (value, mqttPacketVBIlen value.toInt32.toInt)
      rw [toInt_of_lt h]
      exact reads_variable h
  | binaryData => exact reads_lenString h
  | utf8EncodedString => exact reads_lenString h
  | utf8StringPair =>
      obtain ⟨data, value⟩ := value
      obtain ⟨hdata, hvalue⟩ := h
      exact (reads_lenString hdata).bind ((reads_lenString hvalue).map _)

theorem length_writeValue (type : PropertyType) (value : type.Value) (h : Fits type value) :
    (writeValue type value).length = valueLen type value := by
  cases type with
  | byte | twoByteInteger | fourByteInteger => rfl
  | variableByteInteger =>
      change UInt32 at value
      show (mqttPacketEncode value.toNat).length = mqttPacketVBIlen value.toInt32.toInt
      rw [toInt_of_lt h, length_encode h]
  | binaryData | utf8EncodedString => exact length_writeMQTTLenString value
  | utf8StringPair =>
      obtain ⟨data, value⟩ := value
      show (writeMQTTLenString data ++ writeMQTTLenString value).length = _
      rw [List.length_append, length_writeMQTTLenString, length_writeMQTTLenString]
      rfl

namespace MQTTProperty

def Fits (prop : MQTTProperty) : Prop := Mqtt.Fits prop.type prop.value

def len (prop : MQTTProperty) : ℕ := valueLen prop.type prop.value + 1

theorem len_pos (prop : MQTTProperty) : 0 < prop.len := Nat.succ_pos _

theorem identifier_lt (prop : MQTTProperty) : prop.identifier < 256 := by
  obtain ⟨entry, hfind, -⟩ := Option.map_eq_some_iff.mp prop.typed
  have hcode : entry.1.code = prop.identifier := by
    simpa using List.find?_some hfind
  rw [← hcode]
  cases entry.1 <;> decide

end MQTTProperty

theorem length_mqttPropertyWrite {prop : MQTTProperty} (h : prop.Fits) :
    (mqttPropertyWrite prop).length = prop.len := by
  rw [mqttPropertyWrite, List.length_append, length_writeValue _ _ h]
  exact Nat.add_comm 1 _

theorem reads_property {prop : MQTTProperty} (h : prop.Fits) :
    Reads mqttPropertyRead (mqttPropertyWrite prop) (prop, prop.len) := by
  have hid : (UInt8.ofNat prop.identifier).toNat = prop.identifier :=
    toNat_ofNat prop.identifier_lt
  apply (reads_item (UInt8.ofNat prop.identifier)).bind
  obtain ⟨identifier, type, typed, value⟩ := prop
  dsimp only at hid h ⊢
  split
  · rename_i hnone
    rw [hid, typed] at hnone
    exact nomatch hnone
  · rename_i type' hsome
    have htype : type' = type := by
      rw [hid, typed] at hsome
      exact (Option.some.inj hsome).symm
    subst htype
    have hread := (reads_value type' value h).map fun w : type'.Value × ℕ =>
      ((⟨(UInt8.ofNat identifier).toNat, type', hsome, w.1⟩ : MQTTProperty), w.2 + 1)
    intro rest
    rw [← show (⟨(UInt8.ofNat identifier).toNat, type', hsome, value⟩ : MQTTProperty) =
      ⟨identifier, type', typed, value⟩ by congr]
    exact hread rest

/-! ## A list of properties -/

def totalLen (array : List MQTTProperty) : ℕ := (array.map MQTTProperty.len).sum

theorem length_flatMap_write {array : List MQTTProperty} (h : ∀ prop ∈ array, prop.Fits) :
    (array.flatMap mqttPropertyWrite).length = totalLen array := by
  induction array with
  | nil => rfl
  | cons prop array ih =>
      rw [List.flatMap_cons, List.length_append,
        length_mqttPropertyWrite (h prop List.mem_cons_self),
        ih fun p hp => h p (List.mem_cons_of_mem prop hp)]
      rfl

theorem reads_propertiesLoop {array : List MQTTProperty} (h : ∀ prop ∈ array, prop.Fits)
    (hlen : totalLen array < 4294967296) {rounds : ℕ} (hrounds : totalLen array ≤ rounds)
    (before : List MQTTProperty) :
    Reads (propertiesLoop rounds (totalLen array) before) (array.flatMap mqttPropertyWrite)
      (before ++ array) := by
  induction array generalizing rounds before with
  | nil =>
      rw [List.append_nil]
      cases rounds with
      | zero => exact reads_pure before
      | succ rounds => exact reads_pure before
  | cons prop array ih =>
      have hsum : totalLen (prop :: array) = prop.len + totalLen array := rfl
      have hpos := prop.len_pos
      obtain ⟨rounds, rfl⟩ : ∃ n, rounds = n + 1 := ⟨rounds - 1, by omega⟩
      obtain ⟨remlength, hrem⟩ : ∃ n, totalLen (prop :: array) = n + 1 :=
        ⟨totalLen (prop :: array) - 1, by omega⟩
      have hnext : (remlength + 1 + 4294967296 - prop.len) % 4294967296 = totalLen array := by
        omega
      have hothers : Reads (propertiesLoop rounds (totalLen array) (before ++ [prop]))
          (array.flatMap mqttPropertyWrite) (before ++ [prop] ++ array) :=
        ih (fun p hp => h p (List.mem_cons_of_mem prop hp)) (by omega) (by omega) (before ++ [prop])
      have hread := (reads_property (h prop List.mem_cons_self)).bind
        (f := fun w : MQTTProperty × ℕ => propertiesLoop rounds
          ((remlength + 1 + 4294967296 - w.2) % 4294967296) (before ++ [w.1]))
        (hnext ▸ hothers)
      rw [List.append_assoc, List.singleton_append] at hread
      rw [hrem]
      exact hread

/-- What `MQTTProperties_add` has collected. -/
def collected (array : List MQTTProperty) : MQTTProperties :=
  array.foldl mqttPropertiesAdd .initializer

theorem collected_eq (array : List MQTTProperty) :
    collected array = { length := totalLen array, array := array } := by
  induction array using List.reverseRecOn with
  | nil => rfl
  | append_singleton array prop ih =>
      rw [collected, List.foldl_append, ← collected, ih]
      simp only [List.foldl_cons, List.foldl_nil, mqttPropertiesAdd, totalLen, List.map_append,
        List.sum_append, List.map_singleton, List.sum_singleton, MQTTProperty.len]

theorem length_mqttPropertiesWrite {array : List MQTTProperty} (h : ∀ prop ∈ array, prop.Fits)
    (hlen : totalLen array < 268435456) :
    (mqttPropertiesWrite (collected array)).length = mqttPropertiesLen (collected array) := by
  rw [collected_eq, mqttPropertiesWrite, List.length_append, length_encode hlen,
    length_flatMap_write h]
  exact Nat.add_comm _ _

theorem reads_properties {array : List MQTTProperty} (h : ∀ prop ∈ array, prop.Fits)
    (hlen : totalLen array < 268435456) :
    Reads mqttPropertiesRead (mqttPropertiesWrite (collected array)) (collected array) := by
  rw [collected_eq]
  unfold mqttPropertiesRead
  apply reads_remaining
  intro left hleft
  have hwritten : (mqttPropertiesWrite ⟨totalLen array, array⟩).length =
      totalLen array + mqttPacketVBIlen (totalLen array) := by
    rw [← collected_eq, length_mqttPropertiesWrite h hlen, collected_eq]
    rfl
  have hprefix : 0 < mqttPacketVBIlen (totalLen array) := by
    unfold mqttPacketVBIlen
    split_ifs <;> decide
  rw [if_pos (by omega)]
  apply reads_peek rfl (reads_vbi hlen)
  dsimp only
  rw [← length_encode hlen]
  apply (reads_items (mqttPacketEncode (totalLen array))).bind
  apply reads_remaining
  intro left hleft
  rw [length_flatMap_write h] at hleft
  exact (reads_propertiesLoop h (by omega) hleft []).map fun read =>
    ({ length := totalLen array, array := read } : MQTTProperties)

/-- **Property lists are written as announced and read back.**  If the strings and integers
have room on the wire, a collected list is written in exactly `MQTTProperties_len` bytes,
which read back as the list, and `MQTTProperties_copy` makes the same list. -/
theorem properties_read_back (array : List MQTTProperty) (hfits : ∀ prop ∈ array, prop.Fits)
    (hlen : totalLen array < 268435456) :
    (mqttPropertiesWrite (collected array)).length = mqttPropertiesLen (collected array) ∧
      (∀ rest, mqttPropertiesRead (mqttPropertiesWrite (collected array) ++ rest) =
        .done (collected array) rest) ∧
      mqttPropertiesCopy (collected array) = collected array := by
  refine ⟨length_mqttPropertiesWrite hfits hlen, reads_properties hfits hlen, ?_⟩
  show collected (collected array).array = collected array
  rw [collected_eq array]
  exact collected_eq array

def expiryProperty (seconds : UInt32) : MQTTProperty := ⟨2, .fourByteInteger, rfl, seconds⟩

def userProperty (name value : MQTTLenString) : MQTTProperty :=
  ⟨38, .utf8StringPair, rfl, (name, value)⟩

def expiryAndUser : List MQTTProperty := [expiryProperty 60, userProperty ⟨[97]⟩ ⟨[98, 99]⟩]

theorem expiryAndUser_fits : ∀ prop ∈ expiryAndUser, prop.Fits := by
  intro prop hprop
  rcases List.mem_pair.mp hprop with rfl | rfl
  · exact trivial
  · exact ⟨by decide, by decide⟩

theorem properties_read_back_expiryAndUser :
    ((∀ prop ∈ expiryAndUser, prop.Fits) ∧ totalLen expiryAndUser < 268435456) ∧
      (mqttPropertiesWrite (collected expiryAndUser)).length =
          mqttPropertiesLen (collected expiryAndUser) ∧
        (∀ rest, mqttPropertiesRead (mqttPropertiesWrite (collected expiryAndUser) ++ rest) =
          .done (collected expiryAndUser) rest) ∧
        mqttPropertiesCopy (collected expiryAndUser) = collected expiryAndUser := by
  have hlen : totalLen expiryAndUser < 268435456 := by decide
  exact ⟨⟨expiryAndUser_fits, hlen⟩, properties_read_back expiryAndUser expiryAndUser_fits hlen⟩

/-! ## What is accepted -/

theorem takes_readInt : Takes readInt 2 :=
  takes_item.bind fun _ => takes_item.bind fun _ => takes_pure _

theorem takes_readInt4 : Takes readInt4 4 :=
  takes_item.bind fun _ => takes_item.bind fun _ => takes_item.bind fun _ =>
    takes_item.bind fun _ => takes_pure _

theorem counted_of_takes {α β : Type} {r : Reader UInt8 α} {n k : ℕ} (hr : Takes r n)
    (g : α → β) {b : β} {l rest : List UInt8}
    (h : (do let a ← r; pure (g a, n) : Reader UInt8 (β × ℕ)) l = .done (b, k) rest) :
    ∃ used, l = used ++ rest ∧ used.length = k := by
  obtain ⟨a, l₁, ha, h⟩ := bind_done_iff.mp h
  obtain ⟨heq, rfl⟩ := pure_done_iff.mp h
  obtain ⟨used, hused, hlen⟩ := hr l a l₁ ha
  exact ⟨used, hused, hlen.trans (congrArg Prod.snd heq)⟩

theorem lenDelimited_done {l data rest : List UInt8} (h : lenDelimited l = .done data rest) :
    ∃ used, l = used ++ rest ∧ used.length = 2 + data.length := by
  obtain ⟨left, l₁, hleft, hguard⟩ := bind_done_iff.mp h
  obtain ⟨rfl, rfl⟩ := remaining_done_iff.mp hleft
  split at hguard
  · obtain ⟨len, l₂, hlen, htail⟩ := bind_done_iff.mp hguard
    obtain ⟨pre, hl, hpre⟩ := takes_readInt l len l₂ hlen
    obtain ⟨left, l₃, hleft, hroom⟩ := bind_done_iff.mp htail
    obtain ⟨rfl, rfl⟩ := remaining_done_iff.mp hleft
    split at hroom
    · obtain ⟨hdata, -⟩ := items_done_iff.mp hroom
      refine ⟨pre ++ data, ?_, ?_⟩
      · rw [hl, hdata, List.append_assoc]
      · rw [List.length_append, hpre]
    · exact nomatch hroom
  · exact nomatch hguard

theorem lenStringRead_done {l rest : List UInt8} {s : MQTTLenString} {n : ℕ}
    (h : mqttLenStringRead l = .done (s, n) rest) :
    ∃ used, l = used ++ rest ∧ used.length = n := by
  obtain ⟨data, l₁, hdata, h⟩ := bind_done_iff.mp h
  obtain ⟨heq, rfl⟩ := pure_done_iff.mp h
  obtain ⟨used, hused, hlen⟩ := lenDelimited_done hdata
  exact ⟨used, hused, hlen.trans (congrArg Prod.snd heq)⟩

theorem readValue_done {type : PropertyType} {value : type.Value} {n : ℕ} {l rest : List UInt8}
    (h : readValue type l = .done (value, n) rest) :
    ∃ used, l = used ++ rest ∧ used.length = n := by
  cases type with
  | byte => exact counted_of_takes takes_item _ h
  | twoByteInteger => exact counted_of_takes takes_readInt _ h
  | fourByteInteger => exact counted_of_takes takes_readInt4 _ h
  | variableByteInteger =>
      obtain ⟨⟨integer4, len⟩, l₁, hpeek, h⟩ := bind_done_iff.mp h
      obtain ⟨-, rfl⟩ := peek_done_iff.mp hpeek
      exact counted_of_takes (takes_items len) _ h
  | binaryData | utf8EncodedString => exact lenStringRead_done h
  | utf8StringPair =>
      obtain ⟨⟨s, len⟩, l₁, hs, h⟩ := bind_done_iff.mp h
      obtain ⟨⟨t, proplen⟩, l₂, ht, h⟩ := bind_done_iff.mp h
      obtain ⟨heq, rfl⟩ := pure_done_iff.mp h
      obtain ⟨u, rfl, hu⟩ := lenStringRead_done hs
      obtain ⟨v, rfl, hv⟩ := lenStringRead_done ht
      refine ⟨u ++ v, (List.append_assoc u v l₂).symm, ?_⟩
      rw [List.length_append, hu, hv]
      exact congrArg Prod.snd heq

theorem propertyRead_done {prop : MQTTProperty} {n : ℕ} {l rest : List UInt8}
    (h : mqttPropertyRead l = .done (prop, n) rest) :
    ∃ used, l = used ++ rest ∧ used.length = n := by
  obtain ⟨identifier, l₁, hid, htail⟩ := bind_done_iff.mp h
  obtain ⟨r, hr, hrun⟩ : ∃ r : Reader UInt8 (MQTTProperty × ℕ), r = _ ∧
    r l₁ = .done (prop, n) rest := ⟨_, rfl, htail⟩
  split at hr
  · rw [hr] at hrun
    exact nomatch hrun
  · rw [hr] at hrun
    obtain ⟨⟨value, len⟩, l₂, hvalue, hpure⟩ := bind_done_iff.mp hrun
    obtain ⟨heq, rfl⟩ := pure_done_iff.mp hpure
    obtain ⟨used, hl, hlen⟩ := readValue_done hvalue
    refine ⟨identifier :: used, ?_, ?_⟩
    · rw [item_done_iff.mp hid, hl, List.cons_append]
    · rw [List.length_cons, hlen]
      exact congrArg Prod.snd heq

theorem propertiesLoop_done {rounds remlength : ℕ} {before array : List MQTTProperty}
    {l rest : List UInt8} (hsize : l.length < 4294967296) (hrem : remlength < 4294967296)
    (h : propertiesLoop rounds remlength before l = .done array rest) :
    ∃ used, l = used ++ rest ∧ used.length = remlength := by
  have hmod : ∃ used, l = used ++ rest ∧ used.length % 4294967296 = remlength := by
    induction rounds generalizing remlength before l with
    | zero =>
        cases remlength with
        | zero => exact ⟨[], (pure_done_iff.mp h).2, rfl⟩
        | succ remlength => exact nomatch h
    | succ rounds ih =>
        cases remlength with
        | zero => exact ⟨[], (pure_done_iff.mp h).2, rfl⟩
        | succ remlength =>
            obtain ⟨⟨prop, proplen⟩, l₁, hprop, hnext⟩ := bind_done_iff.mp h
            obtain ⟨first, hl, hfirst⟩ := propertyRead_done hprop
            have hshorter : first.length + l₁.length < 4294967296 := by
              rw [← List.length_append, ← hl]
              exact hsize
            obtain ⟨used, hl₁, hused⟩ := ih (by omega) (Nat.mod_lt _ (by decide)) hnext
            refine ⟨first ++ used, ?_, ?_⟩
            · rw [hl, hl₁, List.append_assoc]
            · rw [List.length_append, hfirst]
              omega
  obtain ⟨used, rfl, hused⟩ := hmod
  rw [List.length_append] at hsize
  exact ⟨used, rfl, (Nat.mod_eq_of_lt (by omega)).symm.trans hused⟩

/-- **What is accepted fills its length.**  If a list is read from a packet, its properties
take exactly the bytes announced, behind a length of one to five bytes. -/
theorem properties_fill_length (data rest : List UInt8) (props : MQTTProperties)
    (hsize : data.length < 4294967296) (h : mqttPropertiesRead data = .done props rest) :
    ∃ pre used, data = pre ++ used ++ rest ∧ (1 ≤ pre.length ∧ pre.length ≤ 5) ∧
      used.length = props.length := by
  obtain ⟨left, l₁, hleft, hguard⟩ := bind_done_iff.mp h
  obtain ⟨rfl, rfl⟩ := remaining_done_iff.mp hleft
  split at hguard
  · obtain ⟨⟨remlength, len⟩, l₂, hpeek, htail⟩ := bind_done_iff.mp hguard
    obtain ⟨⟨mid, hvbi⟩, rfl⟩ := peek_done_iff.mp hpeek
    obtain ⟨pre, l₃, hpre, hrest⟩ := bind_done_iff.mp htail
    obtain ⟨hdata, hprelen⟩ := items_done_iff.mp hpre
    obtain ⟨left, l₄, hleft, hloop⟩ := bind_done_iff.mp hrest
    obtain ⟨rfl, rfl⟩ := remaining_done_iff.mp hleft
    obtain ⟨array, l₅, harray, hpure⟩ := bind_done_iff.mp hloop
    obtain ⟨rfl, rfl⟩ := pure_done_iff.mp hpure
    have hlen := vbiLoop_len hvbi
    obtain ⟨counted, -, -, hfour, hbound⟩ := vbiLoop_bound hvbi
    have hpow : 128 ^ counted.length ≤ 128 ^ 4 := Nat.pow_le_pow_right (by decide) hfour
    norm_num at hpow
    have hshorter : l₃.length < 4294967296 := by
      rw [hdata, List.length_append] at hsize
      omega
    obtain ⟨used, hl₃, hused⟩ := propertiesLoop_done hshorter (by omega) harray
    refine ⟨pre, used, ?_, ?_, hused⟩
    · rw [hdata, hl₃, List.append_assoc]
    · omega
  · exact nomatch hguard

def expiryPacket : List UInt8 := [5, 2, 0, 0, 0, 60, 7]

theorem properties_fill_length_expiryPacket :
    (expiryPacket.length < 4294967296 ∧
        mqttPropertiesRead expiryPacket = .done ⟨5, [expiryProperty 60]⟩ [7]) ∧
      ∃ pre used, expiryPacket = pre ++ used ++ [7] ∧ (1 ≤ pre.length ∧ pre.length ≤ 5) ∧
        used.length = (⟨5, [expiryProperty 60]⟩ : MQTTProperties).length := by
  have hread : mqttPropertiesRead expiryPacket = .done ⟨5, [expiryProperty 60]⟩ [7] := by rfl
  exact ⟨⟨by decide, hread⟩, properties_fill_length expiryPacket _ _ (by decide) hread⟩

end CatDect.Mqtt
