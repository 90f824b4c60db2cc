import CatDect.Support.Reader
import Mathlib.Algebra.Order.Ring.Nat
import Mathlib.Tactic.Ring

/-!
# Numbers and strings on the wire

The primitives of `MQTTPacket.c`: fixed-size integers with the high byte first, integers of
one to four bytes with seven bits in each, and strings behind a length of two bytes.  What
the write functions produce, the read functions give back.
-/

namespace CatDect.Mqtt

open CatDect.Support CatDect.Support.Reader

/-! ## The code -/

def writeChar (c : UInt8) : List UInt8 := [c]

def writeInt (anInt : ℕ) : List UInt8 := [UInt8.ofNat (anInt / 256), UInt8.ofNat (anInt % 256)]

def writeInt4 (anInt : ℕ) : List UInt8 :=
  [UInt8.ofNat (anInt / 16777216), UInt8.ofNat (anInt % 16777216 / 65536),
    UInt8.ofNat (anInt % 16777216 % 65536 / 256), UInt8.ofNat (anInt % 16777216 % 65536 % 256)]

def readChar : Reader UInt8 UInt8 := item

def readInt : Reader UInt8 ℕ := do
  let high ← item
  let low ← item
  pure (256 * high.toNat + low.toNat)

def readInt4 : Reader UInt8 ℕ := do
  let c₀ ← item
  let c₁ ← item
  let c₂ ← item
  let c₃ ← item
  pure (16777216 * c₀.toNat + 65536 * c₁.toNat + 256 * c₂.toNat + c₃.toNat)

/-- The bytes written; with a null buffer the function counts them. -/
def mqttPacketEncode (length : ℕ) : List UInt8 :=
  if length / 128 = 0 then [UInt8.ofNat (length % 128)]
  else UInt8.ofNat (length % 128 + 128) :: mqttPacketEncode (length / 128)
termination_by length

def mqttPacketVBIlen (remLen : ℤ) : ℕ :=
  if remLen < 128 then 1
  else if remLen < 16384 then 2
  else if remLen < 2097152 then 3
  else 4

/-- The loop of `MQTTPacket_VBIdecode` with the bytes it may still read, `len`, `multiplier`
and `*value`. -/
def vbiLoop : ℕ → ℕ → ℕ → ℕ → Reader UInt8 (ℕ × ℕ)
  | 0, len, _, value => pure (value, len + 1)
  | n + 1, len, multiplier, value => do
      let c ← item
      let value := value + c.toNat % 128 * multiplier
      if 128 ≤ c.toNat then vbiLoop n (len + 1) (multiplier * 128) value
      else pure (value, len + 1)

/-- The value and the length returned; the fifth byte is counted but not read. -/
def mqttPacketVBIdecode : Reader UInt8 (ℕ × ℕ) := vbiLoop 4 0 1 0

/-- `bufptr` is a pointer of its own. -/
def mqttPacketDecodeBuf : Reader UInt8 (ℕ × ℕ) := peek mqttPacketVBIdecode

section Decode

variable {m : Type → Type} [Monad m]

/-- The loop of `MQTTPacket_decode`, which takes a fifth byte for an error. -/
def decodeLoop (getch : m UInt8) (error : m ℕ) : ℕ → ℕ → ℕ → m ℕ
  | 0, _, _ => error
  | n + 1, multiplier, value => do
      let c ← getch
      let value := value + c.toNat % 128 * multiplier
      if 128 ≤ c.toNat then decodeLoop getch error n (multiplier * 128) value else pure value

def mqttPacketDecode (getch : m UInt8) (error : m ℕ) : m ℕ := decodeLoop getch error 4 1 0

end Decode

structure MQTTLenString where
  data : List UInt8
deriving DecidableEq

def MQTTLenString.len (s : MQTTLenString) : ℕ := s.data.length

def writeMQTTLenString (lenstring : MQTTLenString) : List UInt8 :=
  writeInt lenstring.len ++ lenstring.data

/-- A length of two bytes and as many bytes, if they lie before `enddata`. -/
def lenDelimited : Reader UInt8 (List UInt8) := do
  let left ← remaining
  if 1 < left then
    let len ← readInt
    let left ← remaining
    if len ≤ left then items len else refuse
  else refuse

def mqttLenStringRead : Reader UInt8 (MQTTLenString × ℕ) := do
  let data ← lenDelimited
  pure (⟨data⟩, 2 + data.length)

def readUTFlen : Reader UInt8 (List UInt8) := lenDelimited

/-! ## Integers of fixed size -/

theorem toNat_ofNat {n : ℕ} (h : n < 256) : (UInt8.ofNat n).toNat = n := by
  rw [UInt8.toNat_ofNat']
  exact Nat.mod_eq_of_lt h

@[simp] theorem length_writeInt (n : ℕ) : (writeInt n).length = 2 := rfl

@[simp] theorem length_writeInt4 (n : ℕ) : (writeInt4 n).length = 4 := rfl

theorem reads_int {n : ℕ} (h : n < 65536) : Reads readInt (writeInt n) n := by
  have hvalue : 256 * (UInt8.ofNat (n / 256)).toNat + (UInt8.ofNat (n % 256)).toNat = n := by
    rw [toNat_ofNat (by omega), toNat_ofNat (by omega)]
    omega
  intro rest
  show Outcome.done _ rest = _
  rw [hvalue]

theorem reads_int4 {n : ℕ} (h : n < 4294967296) : Reads readInt4 (writeInt4 n) n := by
  have hvalue : 16777216 * (UInt8.ofNat (n / 16777216)).toNat +
      65536 * (UInt8.ofNat (n % 16777216 / 65536)).toNat +
      256 * (UInt8.ofNat (n % 16777216 % 65536 / 256)).toNat +
      (UInt8.ofNat (n % 16777216 % 65536 % 256)).toNat = n := by
    rw [toNat_ofNat (by omega), toNat_ofNat (by omega), toNat_ofNat (by omega),
      toNat_ofNat (by omega)]
    omega
  intro rest
  show Outcome.done _ rest = _
  rw [hvalue]

/-! ## Strings -/

@[simp] theorem length_writeMQTTLenString (s : MQTTLenString) :
    (writeMQTTLenString s).length = 2 + s.len := List.length_append

theorem reads_lenDelimited {data : List UInt8} (h : data.length < 65536) :
    Reads lenDelimited (writeInt data.length ++ data) data := by
  apply reads_remaining
  intro left hleft
  have htwo : 1 < left := by
    rw [List.length_append, length_writeInt] at hleft
    omega
  rw [if_pos htwo]
  apply (reads_int h).bind
  apply reads_remaining
  intro left hleft
  rw [if_pos hleft]
  exact reads_items data

theorem reads_lenString {s : MQTTLenString} (h : s.len < 65536) :
    Reads mqttLenStringRead (writeMQTTLenString s) (s, 2 + s.len) :=
  (reads_lenDelimited h).map fun data => ((⟨data⟩ : MQTTLenString), 2 + data.length)

/-! ## Integers of variable size -/

theorem encode_small {n : ℕ} (h : n < 128) : mqttPacketEncode n = [UInt8.ofNat n] := by
  rw [mqttPacketEncode, if_pos (Nat.div_eq_of_lt h), Nat.mod_eq_of_lt h]

theorem encode_large {n : ℕ} (h : 128 ≤ n) :
    mqttPacketEncode n = UInt8.ofNat (n % 128 + 128) :: mqttPacketEncode (n / 128) := by
  rw [mqttPacketEncode, if_neg (by omega)]

theorem length_encode_le_iff {k n : ℕ} :
    (mqttPacketEncode n).length ≤ k + 1 ↔ n < 128 ^ (k + 1) := by
  induction k generalizing n with
  | zero =>
      rcases Nat.lt_or_ge n 128 with h | h
      · rw [encode_small h]
        simpa using h
      · rw [encode_large h, mqttPacketEncode]
        constructor
        · intro hlen
          split at hlen <;> simp at hlen
        · intro hlt
          omega
  | succ k ih =>
      have hpow : 128 ^ (k + 1 + 1) = 128 ^ (k + 1) * 128 := pow_succ _ _
      have hpos : 0 < 128 ^ (k + 1) := Nat.pow_pos (by decide)
      rcases Nat.lt_or_ge n 128 with h | h
      · rw [encode_small h]
        constructor
        · intro _
          rw [hpow]
          calc n < 128 := h
            _ = 1 * 128 := (Nat.one_mul 128).symm
            _ ≤ 128 ^ (k + 1) * 128 := Nat.mul_le_mul_right 128 hpos
        · intro _
          exact Nat.le_add_left 1 (k + 1)
      · rw [encode_large h, List.length_cons, Nat.add_le_add_iff_right, ih, hpow]
        exact Nat.div_lt_iff_lt_mul (by decide)

theorem length_encode {n : ℕ} (h : n < 268435456) :
    (mqttPacketEncode n).length = mqttPacketVBIlen n := by
  have h₁ := length_encode_le_iff (k := 0) (n := n)
  have h₂ := length_encode_le_iff (k := 1) (n := n)
  have h₃ := length_encode_le_iff (k := 2) (n := n)
  have h₄ := length_encode_le_iff (k := 3) (n := n)
  norm_num at h₁ h₂ h₃ h₄
  have hpos : 0 < (mqttPacketEncode n).length := by
    rw [mqttPacketEncode]
    split <;> exact Nat.succ_pos _
  unfold mqttPacketVBIlen
  split_ifs <;> omega

theorem vbiLoop_cons (k len multiplier value : ℕ) (c : UInt8) (rest : List UInt8) :
    vbiLoop (k + 1) len multiplier value (c :: rest) =
      if 128 ≤ c.toNat then
        vbiLoop k (len + 1) (multiplier * 128) (value + c.toNat % 128 * multiplier) rest
      else .done (value + c.toNat % 128 * multiplier, len + 1) rest := by
  rw [vbiLoop, item_bind_cons]
  split <;> rfl

theorem decodeLoop_cons (k multiplier value : ℕ) (c : UInt8) (rest : List UInt8) :
    decodeLoop item refuse (k + 1) multiplier value (c :: rest) =
      if 128 ≤ c.toNat then
        decodeLoop item refuse k (multiplier * 128) (value + c.toNat % 128 * multiplier) rest
      else .done (value + c.toNat % 128 * multiplier) rest := by
  rw [decodeLoop, item_bind_cons]
  split <;> rfl

theorem reads_encode {k n : ℕ} (h : n < 128 ^ (k + 1)) (len multiplier value : ℕ) :
    Reads (vbiLoop (k + 1) len multiplier value) (mqttPacketEncode n)
        (value + n * multiplier, len + (mqttPacketEncode n).length) ∧
      Reads (decodeLoop item refuse (k + 1) multiplier value) (mqttPacketEncode n)
        (value + n * multiplier) := by
  induction k generalizing n len multiplier value with
  | zero =>
      have hsmall : n < 128 := by simpa using h
      have hbyte : (UInt8.ofNat n).toNat = n := toNat_ofNat (by omega)
      rw [encode_small hsmall]
      constructor
      · intro rest
        rw [List.singleton_append, vbiLoop_cons, hbyte, if_neg (by omega),
          Nat.mod_eq_of_lt hsmall, List.length_singleton]
      · intro rest
        rw [List.singleton_append, decodeLoop_cons, hbyte, if_neg (by omega),
          Nat.mod_eq_of_lt hsmall]
  | succ k ih =>
      rcases Nat.lt_or_ge n 128 with hsmall | hlarge
      · have hbyte : (UInt8.ofNat n).toNat = n := toNat_ofNat (by omega)
        rw [encode_small hsmall]
        constructor
        · intro rest
          rw [List.singleton_append, vbiLoop_cons, hbyte, if_neg (by omega),
            Nat.mod_eq_of_lt hsmall, List.length_singleton]
        · intro rest
          rw [List.singleton_append, decodeLoop_cons, hbyte, if_neg (by omega),
            Nat.mod_eq_of_lt hsmall]
      · have hdiv : n / 128 < 128 ^ (k + 1) := by
          rw [Nat.div_lt_iff_lt_mul (by decide), ← pow_succ]
          exact h
        have hbyte : (UInt8.ofNat (n % 128 + 128)).toNat = n % 128 + 128 :=
          toNat_ofNat (by omega)
        have hlow : (n % 128 + 128) % 128 = n % 128 := by omega
        have hvalue : value + n % 128 * multiplier + n / 128 * (multiplier * 128) =
            value + n * multiplier := by
          have hsplit : 128 * (n / 128) + n % 128 = n := Nat.div_add_mod n 128
          calc value + n % 128 * multiplier + n / 128 * (multiplier * 128)
              = value + (128 * (n / 128) + n % 128) * multiplier := by ring
            _ = value + n * multiplier := by rw [hsplit]
        obtain ⟨hvbi, hdecode⟩ := ih hdiv (len + 1) (multiplier * 128)
          (value + n % 128 * multiplier)
        rw [hvalue] at hvbi hdecode
        rw [encode_large hlarge]
        constructor
        · intro rest
          rw [List.cons_append, vbiLoop_cons, hbyte, hlow, if_pos (by omega), hvbi,
            List.length_cons, Nat.add_right_comm, Nat.add_assoc len]
        · intro rest
          rw [List.cons_append, decodeLoop_cons, hbyte, hlow, if_pos (by omega), hdecode]

theorem reads_vbi {n : ℕ} (h : n < 268435456) :
    Reads mqttPacketVBIdecode (mqttPacketEncode n) (n, mqttPacketVBIlen n) := by
  have hread := (reads_encode (k := 3) (n := n) (by norm_num; exact h) 0 1 0).1
  rw [Nat.zero_add, Nat.mul_one, Nat.zero_add, length_encode h] at hread
  exact hread

theorem reads_decode {n : ℕ} (h : n < 268435456) :
    Reads (mqttPacketDecode item refuse) (mqttPacketEncode n) n := by
  have hread := (reads_encode (k := 3) (n := n) (by norm_num; exact h) 0 1 0).2
  rw [Nat.zero_add, Nat.mul_one] at hread
  exact hread

theorem vbiLoop_len {k len multiplier value v n : ℕ} {l rest : List UInt8}
    (h : vbiLoop k len multiplier value l = .done (v, n) rest) : len < n ∧ n ≤ len + k + 1 := by
  induction k generalizing len multiplier value l with
  | zero =>
      have hn : len + 1 = n := congrArg Prod.snd (pure_done_iff.mp h).1
      omega
  | succ k ih =>
      cases l with
      | nil => exact nomatch h
      | cons c l =>
          rw [vbiLoop_cons] at h
          split at h
          · have hnext := ih h
            omega
          · injection h with hn
            have hn : len + 1 = n := congrArg Prod.snd hn
            omega

theorem vbiLoop_bound {k len multiplier value v n : ℕ} {l rest : List UInt8}
    (h : vbiLoop k len multiplier value l = .done (v, n) rest) :
    ∃ used, l = used ++ rest ∧ min 1 k ≤ used.length ∧ used.length ≤ k ∧
      v + multiplier ≤ value + multiplier * 128 ^ used.length := by
  induction k generalizing len multiplier value l with
  | zero =>
      obtain ⟨hv, rfl⟩ := pure_done_iff.mp h
      rw [Prod.mk.injEq] at hv
      refine ⟨[], rfl, Nat.min_le_right 1 0, Nat.le_refl 0, ?_⟩
      rw [List.length_nil, pow_zero, Nat.mul_one, hv.1]
  | succ k ih =>
      cases l with
      | nil => exact nomatch h
      | cons c l =>
          have hc : c.toNat % 128 * multiplier ≤ 127 * multiplier :=
            Nat.mul_le_mul_right multiplier (by omega)
          rw [vbiLoop_cons] at h
          split at h
          · obtain ⟨used, rfl, -, hk, hv⟩ := ih h
            refine ⟨c :: used, rfl, ?_, Nat.succ_le_succ hk, ?_⟩
            · rw [List.length_cons]
              omega
            · rw [List.length_cons, pow_succ]
              have hmul : multiplier * (128 ^ used.length * 128) =
                  multiplier * 128 * 128 ^ used.length := by ring
              rw [hmul]
              omega
          · injection h with hv hl
            rw [Prod.mk.injEq] at hv
            refine ⟨[c], by rw [hl, List.singleton_append], by simp, by simp, ?_⟩
            rw [List.length_singleton, pow_one, ← hv.1]
            omega

/-- **Integers of variable size.**  What `MQTTPacket_encode` writes reads back with the
length that `MQTTPacket_VBIlen` foretells exactly up to 268435455, and no shorter text reads
as the same number. -/
theorem vbi_reads_back_iff (n : ℕ) :
    (Reads mqttPacketVBIdecode (mqttPacketEncode n) (n, mqttPacketVBIlen n) ↔ n < 268435456) ∧
      ∀ l rest m, mqttPacketVBIdecode (l ++ rest) = .done (n, m) rest →
        (mqttPacketEncode n).length ≤ l.length := by
  have hshort : ∀ l rest m, mqttPacketVBIdecode (l ++ rest) = .done (n, m) rest →
      (mqttPacketEncode n).length ≤ l.length ∧ l.length ≤ 4 := by
    intro l rest m h
    obtain ⟨used, heq, hone, hfour, hbound⟩ := vbiLoop_bound h
    obtain rfl : l = used := List.append_cancel_right heq
    rw [Nat.zero_add, Nat.one_mul] at hbound
    cases l with
    | nil => exact absurd hone (by decide)
    | cons c l =>
        refine ⟨length_encode_le_iff.mpr ?_, hfour⟩
        rw [List.length_cons] at hbound
        omega
  constructor
  · constructor
    · intro h
      have hfour := (hshort _ [] _ (h [])).2
      have hlt := length_encode_le_iff (k := 3).mp hfour
      norm_num at hlt
      exact hlt
    · exact reads_vbi
  · exact fun l rest m h => (hshort l rest m h).1

end CatDect.Mqtt
