import CatDect.Mqtt.Wire
import Mathlib.Data.List.Induction

/-!
# Packets in a stream

A packet is a header byte, the length of the rest and the rest.  `MQTTPacket_Factory` takes
one from the front of what a socket has received.
-/

namespace CatDect.Mqtt

open CatDect.Support CatDect.Support.Reader

/-! ## The code -/

def mqttPacketSends (header : UInt8) (body : List UInt8) : List UInt8 :=
  header :: (mqttPacketEncode body.length ++ body)

/-- The beginning of `MQTTPacket_Factory`. -/
def packetHeader {m : Type → Type} [Monad m] (getch : m UInt8) (error : m ℕ) : m (UInt8 × ℕ) := do
  let header ← getch
  let remainingLength ← mqttPacketDecode getch error
  pure (header, remainingLength)

/-- What `MQTTPacket_Factory` takes from a stream and hands to the function of the packet
type. -/
def readPacket : Reader UInt8 (UInt8 × List UInt8) := do
  let (header, remainingLength) ← packetHeader item refuse
  let data ← items remainingLength
  pure (header, data)

/-! ## One packet -/

theorem reads_header (header : UInt8) {n : ℕ} (h : n < 268435456) :
    Reads (packetHeader item refuse) (header :: mqttPacketEncode n) (header, n) :=
  (reads_item header).bind ((reads_decode h).map fun n => (header, n))

theorem reads_packet (header : UInt8) {body : List UInt8} (h : body.length < 268435456) :
    Reads readPacket (mqttPacketSends header body) (header, body) :=
  (reads_header header h).bind ((reads_items body).map fun data => (header, data))

theorem steady_decodeLoop (k multiplier value : ℕ) :
    Steady (decodeLoop (m := Reader UInt8) item refuse k multiplier value) := by
  induction k generalizing multiplier value with
  | zero => exact steady_refuse
  | succ k ih =>
      apply steady_item.bind
      intro c
      dsimp only
      split
      · exact ih _ _
      · exact steady_pure _

theorem steady_header : Steady (packetHeader (m := Reader UInt8) item refuse) :=
  steady_item.bind fun _ => (steady_decodeLoop 4 1 0).bind fun _ => steady_pure _

theorem steady_readPacket : Steady readPacket :=
  steady_header.bind fun _ => (steady_items _).bind fun _ => steady_pure _

/-! ## Many packets -/

def wire (packets : List (UInt8 × List UInt8)) : List UInt8 :=
  packets.flatMap fun p => mqttPacketSends p.1 p.2

/-- The remaining length has at most four bytes. -/
def Short (p : UInt8 × List UInt8) : Prop := p.2.length < 268435456

theorem readsOff_wire {before after : List (UInt8 × List UInt8)} (h : ∀ p ∈ before, Short p) :
    ReadsOff readPacket (wire (before ++ after)) before (wire after) := by
  induction before using List.reverseRecOn generalizing after with
  | nil => exact .nil
  | append_singleton before p ih =>
      have hbefore : ReadsOff readPacket (wire (before ++ p :: after)) before (wire (p :: after)) :=
        ih fun q hq => h q (List.mem_append_left [p] hq)
      rw [List.append_assoc]
      exact .snoc hbefore (reads_packet p.1 (h p (by simp)) (wire after))

end CatDect.Mqtt
