import CatDect.Mqtt.SocketBuffer
import CatDect.Support.Fifo
import CatDect.Support.Loops

/-!
# Packets that leave in pieces

The kernel may take only a part of a packet.  `Socket_putdatas` then keeps the buffers in
`writes`, puts the socket on `write_pending` and refuses further packets for it;
`Socket_continueWrites` hands over what is missing when `poll` finds room.  Over any run, what
the kernel has taken for a socket is the packets accepted for it, one after the other and
without a gap, up to the rest of the last one that is still kept.
-/

namespace CatDect.Mqtt

open CatDect.Support

/-! ## The code -/

/-- `count` is the number of buffers. -/
structure PendingWrites where
  socket : ℕ
  bytes : ℕ
  total : ℕ
  iovecs : List (List UInt8)

/-- What `writev` does: it takes as much as there is room for, or it fails. -/
inductive WritevAnswer
  | room (bytes : ℕ)
  | wouldBlock
  | failed

/-- `writes`, `mod_s.write_pending`, and what the kernel has taken since a socket was opened. -/
structure WriteState where
  writes : List PendingWrites
  writePending : List ℕ
  taken : ℕ → List UInt8

/-- The number of bytes written, or `none` for `SOCKET_ERROR`. -/
def socketWritev (s : ℕ) (iovecs : List (List UInt8)) (answer : WritevAnswer) (w : WriteState) :
    WriteState × Option ℕ :=
  match answer with
  | .room n =>
      let data := iovecs.flatten.take n
      ({ w with taken := Function.update w.taken s (w.taken s ++ data) }, some data.length)
  | .wouldBlock => (w, some 0)
  | .failed => (w, none)

def socketNoPendingWrites (s : ℕ) (w : WriteState) : Bool := !w.writePending.contains s

/-- Allocation succeeds: `Socket_putdatas` would go on without the entry. -/
def socketBufferPendingWrite (s : ℕ) (iovecs : List (List UInt8)) (total bytes : ℕ)
    (w : WriteState) : WriteState :=
  { w with writes := w.writes ++ [⟨s, bytes, total, iovecs⟩] }

def socketPutdatas (s : ℕ) (buf0 : List UInt8) (bufs : List (List UInt8)) (answer : WritevAnswer)
    (w : WriteState) : WriteState × Completion Unit :=
  if !socketNoPendingWrites s w then (w, .socketError)
  else
    let total := buf0.length + (bufs.map List.length).sum
    let iovecs := buf0 :: bufs
    match socketWritev s iovecs answer w with
    | (w, none) => (w, .socketError)
    | (w, some bytes) =>
        if bytes = total then (w, .complete ())
        else
          let w := socketBufferPendingWrite s iovecs total bytes w
          ({ w with writePending := w.writePending ++ [s] }, .interrupted)

def socketBufferGetWrite (s : ℕ) (w : WriteState) : Option PendingWrites :=
  w.writes.find? fun pw => pw.socket = s

def socketBufferWriteComplete (s : ℕ) (w : WriteState) : WriteState :=
  { w with writes := w.writes.eraseP fun pw => pw.socket = s }

/-- The buffers `iovecs1` of `Socket_continueWrite`. -/
def unwritten (bytes : ℕ) : ℕ → List (List UInt8) → List (List UInt8)
  | _, [] => []
  | curbuflen, buf :: bufs =>
      let later := unwritten bytes (curbuflen + buf.length) bufs
      if bytes ≤ curbuflen then buf :: later
      else if bytes < curbuflen + buf.length then buf.drop (bytes - curbuflen) :: later
      else later

/-- `SocketBuffer_getWrite` has returned a pointer into the list. -/
def setBytes (s bytes : ℕ) : List PendingWrites → List PendingWrites
  | [] => []
  | pw :: rest =>
      if pw.socket = s then { pw with bytes := bytes } :: rest else pw :: setBytes s bytes rest

/-- `none` is an access through the null pointer. -/
def socketContinueWrite (s : ℕ) (answer : WritevAnswer) (w : WriteState) :
    Option (WriteState × Completion Unit) := do
  let pw ← socketBufferGetWrite s w
  match socketWritev s (unwritten pw.bytes 0 pw.iovecs) answer w with
  | (w, none) => some (w, .socketError)
  | (w, some bytes) =>
      let w := { w with writes := setBytes s (pw.bytes + bytes) w.writes }
      if pw.bytes + bytes = pw.total then some (w, .complete ()) else some (w, .interrupted)

def continueRound (s : ℕ) (answer : WritevAnswer) (w : WriteState) :
    Option (WriteState × Completion Unit) := do
  let (w, rc) ← socketContinueWrite s answer w
  match rc with
  | .interrupted => some (w, rc)
  | _ =>
      let w := socketBufferWriteComplete s w
      some ({ w with writePending := w.writePending.erase s }, rc)

/-- `Socket_close`, with `SocketBuffer_cleanup`.  The number may be used again. -/
def socketClose (s : ℕ) (w : WriteState) : WriteState :=
  let w := socketBufferWriteComplete s w
  { w with writePending := w.writePending.erase s, taken := Function.update w.taken s [] }

/-! ## Runs -/

/-- Besides the state of the code: the packets accepted for a socket since it was opened, and
whether the rest of one was thrown away after an error. -/
structure Sender where
  out : WriteState
  accepted : ℕ → List (UInt8 × List UInt8)
  cut : ℕ → Bool

def Sender.init : Sender where
  out := ⟨[], [], fun _ => []⟩
  accepted := fun _ => []
  cut := fun _ => false

inductive SendEvent
  | sends (s : ℕ) (header : UInt8) (bufs : List (List UInt8)) (answer : WritevAnswer)
  | round (s : ℕ) (answer : WritevAnswer)
  | close (s : ℕ)

/-- `MQTTPacket_sends`; `MQTTPacket_send` is the case of one buffer. -/
def mqttPacketSendsOn (s : ℕ) (header : UInt8) (bufs : List (List UInt8)) (answer : WritevAnswer)
    (w : WriteState) : WriteState × Completion Unit :=
  let total := (bufs.map List.length).sum
  socketPutdatas s (header :: mqttPacketEncode total) bufs answer w

def senderStep (y : Sender) : SendEvent → Option Sender
  | .sends s header bufs answer =>
      match mqttPacketSendsOn s header bufs answer y.out with
      | (w, .socketError) => some { y with out := w }
      | (w, _) =>
          some { y with
            out := w
            accepted := Function.update y.accepted s (y.accepted s ++ [(header, bufs.flatten)]) }
  | .round s answer =>
      if socketNoPendingWrites s y.out then some y
      else do
        let (w, rc) ← continueRound s answer y.out
        match rc with
        | .socketError => some { y with out := w, cut := Function.update y.cut s true }
        | _ => some { y with out := w }
  | .close s =>
      some {
        out := socketClose s y.out
        accepted := Function.update y.accepted s []
        cut := Function.update y.cut s false }

/-! ## What is left of a packet -/

theorem flatten_unwritten (bytes curbuflen : ℕ) (bufs : List (List UInt8)) :
    (unwritten bytes curbuflen bufs).flatten = bufs.flatten.drop (bytes - curbuflen) := by
  induction bufs generalizing curbuflen with
  | nil => simp [unwritten]
  | cons buf bufs ih =>
      rw [List.flatten_cons, List.drop_append, unwritten]
      split
      · rename_i hbefore
        rw [List.flatten_cons, ih]
        have hzero : bytes - curbuflen = 0 := by omega
        have hzero' : bytes - (curbuflen + buf.length) = 0 := by omega
        rw [hzero, hzero', Nat.zero_sub, List.drop_zero, List.drop_zero]
      · split
        · rename_i hbefore hinside
          rw [List.flatten_cons, ih]
          have hzero : bytes - (curbuflen + buf.length) = 0 := by omega
          have hzero' : bytes - curbuflen - buf.length = 0 := by omega
          rw [hzero, hzero']
        · rename_i hbefore hbehind
          have hall : buf.drop (bytes - curbuflen) = [] := by
            apply List.drop_eq_nil_of_le
            omega
          have hsub : bytes - (curbuflen + buf.length) = bytes - curbuflen - buf.length := by
            omega
          rw [ih, hall, List.nil_append, hsub]

def PendingWrites.rest (pw : PendingWrites) : List UInt8 := pw.iovecs.flatten.drop pw.bytes

def WriteState.rest (w : WriteState) (s : ℕ) : List UInt8 :=
  match socketBufferGetWrite s w with
  | some pw => pw.rest
  | none => []

/-! ## The entries of one socket -/

def WriteState.writesOf (w : WriteState) (s : ℕ) : List PendingWrites :=
  w.writes.filter fun pw => pw.socket = s

theorem getWrite_eq_head? (s : ℕ) (w : WriteState) :
    socketBufferGetWrite s w = (w.writesOf s).head? := by
  rw [socketBufferGetWrite, WriteState.writesOf, List.head?_filter]

theorem filter_setBytes_of_ne {s t : ℕ} (ht : t ≠ s) (bytes : ℕ) (l : List PendingWrites) :
    (setBytes s bytes l).filter (fun pw => pw.socket = t) = l.filter fun pw => pw.socket = t := by
  induction l with
  | nil => rfl
  | cons pw l ih =>
      rw [setBytes]
      split
      · rename_i hs
        have hne : ¬ pw.socket = t := by
          rw [hs]
          exact fun h => ht h.symm
        rw [List.filter_cons_of_neg (by simpa using hne),
          List.filter_cons_of_neg (by simpa using hne)]
      · rw [List.filter_cons, List.filter_cons, ih]

theorem filter_setBytes_self {s bytes : ℕ} {l : List PendingWrites} {pw : PendingWrites}
    (h : l.filter (fun pw => pw.socket = s) = [pw]) :
    (setBytes s bytes l).filter (fun pw => pw.socket = s) = [{ pw with bytes := bytes }] := by
  induction l with
  | nil => exact nomatch h
  | cons pw' l ih =>
      rw [setBytes]
      by_cases hs : pw'.socket = s
      · rw [List.filter_cons_of_pos (by simpa using hs)] at h
        obtain ⟨rfl, hl⟩ := List.cons.inj h
        rw [if_pos hs, List.filter_cons_of_pos (by simpa using hs), hl]
      · rw [List.filter_cons_of_neg (by simpa using hs)] at h
        rw [if_neg hs, List.filter_cons_of_neg (by simpa using hs), ih h]

theorem writesOf_writeComplete_of_ne {s t : ℕ} (ht : t ≠ s) (w : WriteState) :
    (socketBufferWriteComplete s w).writesOf t = w.writesOf t := by
  apply filter_eraseP_of_disjoint
  intro pw hs hother
  exact ht ((of_decide_eq_true hother).symm.trans (of_decide_eq_true hs))

def OthersKept (s : ℕ) (w w' : WriteState) : Prop :=
  ∀ t, t ≠ s → w'.writesOf t = w.writesOf t ∧
    w'.writePending.count t = w.writePending.count t ∧ w'.taken t = w.taken t

structure Whole (w : WriteState) (s : ℕ) (accepted : List (UInt8 × List UInt8)) (cut : Bool) :
    Prop where
  writes : w.writesOf s = []
  count : w.writePending.count s = 0
  taken : cut = false → w.taken s = wire accepted

structure Partly (w : WriteState) (s : ℕ) (accepted : List (UInt8 × List UInt8)) (cut : Bool)
    (pw : PendingWrites) : Prop where
  writes : w.writesOf s = [pw]
  count : w.writePending.count s = 1
  total : pw.total = pw.iovecs.flatten.length
  bytes : pw.bytes < pw.total
  taken : cut = false → ∃ before header body, accepted = before ++ [(header, body)] ∧
    pw.iovecs.flatten = mqttPacketSends header body ∧
    w.taken s = wire before ++ pw.iovecs.flatten.take pw.bytes

inductive Leaving (w : WriteState) (s : ℕ) (accepted : List (UInt8 × List UInt8)) (cut : Bool) :
    Prop
  | whole (h : Whole w s accepted cut)
  | partly (pw : PendingWrites) (h : Partly w s accepted cut pw)

section Sockets

variable {w w' : WriteState} {s t : ℕ} {accepted : List (UInt8 × List UInt8)} {cut : Bool}

theorem Leaving.transport (h : Leaving w t accepted cut) (hkept : OthersKept s w w')
    (ht : t ≠ s) : Leaving w' t accepted cut := by
  obtain ⟨hwrites, hcount, htaken⟩ := hkept t ht
  cases h with
  | whole h =>
      apply Leaving.whole
      constructor
      · rw [hwrites, h.writes]
      · rw [hcount, h.count]
      · rw [htaken]
        exact h.taken
  | partly pw h =>
      apply Leaving.partly pw
      constructor
      · rw [hwrites, h.writes]
      · rw [hcount, h.count]
      · exact h.total
      · exact h.bytes
      · rw [htaken]
        exact h.taken

theorem noPendingWrites_iff : socketNoPendingWrites s w = true ↔ w.writePending.count s = 0 := by
  rw [socketNoPendingWrites, List.count_eq_zero]
  simp

theorem wire_append (before after : List (UInt8 × List UInt8)) :
    wire (before ++ after) = wire before ++ wire after := by
  exact List.flatMap_append

theorem wire_snoc (before : List (UInt8 × List UInt8)) (header : UInt8) (body : List UInt8) :
    wire (before ++ [(header, body)]) = wire before ++ mqttPacketSends header body := by
  rw [wire_append]
  simp [wire]

/-! ## What one step does -/

def WritevAnswer.bytes : WritevAnswer → ℕ
  | .room n => n
  | _ => 0

theorem writev_spec (s : ℕ) (iovecs : List (List UInt8)) (answer : WritevAnswer)
    (w : WriteState) :
    answer = .failed ∧ socketWritev s iovecs answer w = (w, none) ∨
      answer ≠ .failed ∧ ∃ n, n = min answer.bytes iovecs.flatten.length ∧
        socketWritev s iovecs answer w =
          ({ w with taken := Function.update w.taken s (w.taken s ++ iovecs.flatten.take n) },
            some n) := by
  cases answer with
  | room n =>
      right
      refine ⟨(fun h => nomatch h), _, rfl, ?_⟩
      rw [← List.take_eq_take_min]
      simp only [socketWritev, List.length_take, WritevAnswer.bytes]
  | wouldBlock =>
      right
      refine ⟨(fun h => nomatch h), _, rfl, ?_⟩
      simp [socketWritev, WritevAnswer.bytes]
  | failed => exact .inl ⟨rfl, rfl⟩

theorem othersKept_taken (l : List UInt8) :
    OthersKept s w { w with taken := Function.update w.taken s l } := by
  intro t ht
  exact ⟨rfl, rfl, Function.update_of_ne ht _ _⟩

theorem othersKept_remove (s : ℕ) (w : WriteState) :
    OthersKept s w { socketBufferWriteComplete s w with
      writePending := w.writePending.erase s } := by
  intro t ht
  exact ⟨writesOf_writeComplete_of_ne ht w, List.count_erase_of_ne ht, rfl⟩

theorem OthersKept.trans {w'' : WriteState} (h : OthersKept s w w') (h' : OthersKept s w' w'') :
    OthersKept s w w'' := by
  intro t ht
  obtain ⟨hwrites, hcount, htaken⟩ := h t ht
  obtain ⟨hwrites', hcount', htaken'⟩ := h' t ht
  exact ⟨hwrites'.trans hwrites, hcount'.trans hcount, htaken'.trans htaken⟩

theorem length_packet (header : UInt8) (bufs : List (List UInt8)) :
    (header :: mqttPacketEncode (bufs.map List.length).sum).length +
        (bufs.map List.length).sum =
      (mqttPacketSends header bufs.flatten).length := by
  simp only [mqttPacketSends, List.length_cons, List.length_append, List.length_flatten]
  omega

theorem flatten_packet (header : UInt8) (bufs : List (List UInt8)) :
    ((header :: mqttPacketEncode (bufs.map List.length).sum) :: bufs).flatten =
      mqttPacketSends header bufs.flatten := by
  rw [List.flatten_cons, mqttPacketSends, List.length_flatten, List.cons_append]

theorem sends_refused (hpending : socketNoPendingWrites s w = false) (header : UInt8)
    (bufs : List (List UInt8)) (answer : WritevAnswer) :
    mqttPacketSendsOn s header bufs answer w = (w, .socketError) := by
  simp [mqttPacketSendsOn, socketPutdatas, hpending]

theorem Whole.sends (h : Whole w s accepted cut) (header : UInt8) (bufs : List (List UInt8))
    (answer : WritevAnswer) :
    mqttPacketSendsOn s header bufs answer w = (w, .socketError) ∨
      ∃ w' rc, mqttPacketSendsOn s header bufs answer w = (w', rc) ∧ rc ≠ .socketError ∧
        OthersKept s w w' ∧ Leaving w' s (accepted ++ [(header, bufs.flatten)]) cut := by
  have hfree : socketNoPendingWrites s w = true := noPendingWrites_iff.mpr h.count
  simp only [mqttPacketSendsOn, socketPutdatas, hfree, Bool.not_true, Bool.false_eq_true,
    if_false]
  rcases writev_spec s ((header :: mqttPacketEncode (bufs.map List.length).sum) :: bufs)
    answer w with ⟨_, hfailed⟩ | ⟨_, n, hn, hwrote⟩
  · left
    rw [hfailed]
  · right
    rw [flatten_packet] at hn hwrote
    simp only [hwrote, length_packet]
    by_cases hall : n = (mqttPacketSends header bufs.flatten).length
    · rw [if_pos hall]
      refine ⟨_, _, rfl, (fun hrc => nomatch hrc), othersKept_taken _, .whole ?_⟩
      constructor
      · exact h.writes
      · exact h.count
      · intro hcut
        change Function.update w.taken s _ s = _
        rw [Function.update_self, h.taken hcut, wire_snoc, hall, List.take_length]
    · rw [if_neg hall]
      refine ⟨_, _, rfl, (fun hrc => nomatch hrc), ?_, .partly ⟨s, n,
        (mqttPacketSends header bufs.flatten).length,
        (header :: mqttPacketEncode (bufs.map List.length).sum) :: bufs⟩ ?_⟩
      · intro t ht
        refine ⟨?_, ?_, Function.update_of_ne ht _ _⟩
        · simp [WriteState.writesOf, socketBufferPendingWrite, ht.symm]
        · simp [socketBufferPendingWrite, List.count_append, ht.symm]
      · constructor
        · have hempty : w.writes.filter (fun pw => pw.socket = s) = [] := h.writes
          simp [WriteState.writesOf, socketBufferPendingWrite, hempty]
        · simp [socketBufferPendingWrite, List.count_append, h.count]
        · rw [flatten_packet]
        · dsimp only
          omega
        · intro hcut
          refine ⟨accepted, header, bufs.flatten, rfl, flatten_packet header bufs, ?_⟩
          rw [flatten_packet]
          change Function.update w.taken s _ s = _
          rw [Function.update_self, h.taken hcut]

theorem sends_spec (h : Leaving w s accepted cut) (header : UInt8) (bufs : List (List UInt8))
    (answer : WritevAnswer) :
    mqttPacketSendsOn s header bufs answer w = (w, .socketError) ∨
      ∃ w' rc, mqttPacketSendsOn s header bufs answer w = (w', rc) ∧ rc ≠ .socketError ∧
        OthersKept s w w' ∧ Leaving w' s (accepted ++ [(header, bufs.flatten)]) cut := by
  cases h with
  | whole h => exact h.sends header bufs answer
  | partly pw h =>
      left
      apply sends_refused
      rw [← Bool.not_eq_true, noPendingWrites_iff, h.count]
      decide

/-! ## A round -/

def removed (s : ℕ) (w : WriteState) : WriteState :=
  { socketBufferWriteComplete s w with writePending := w.writePending.erase s }

def advanced (s n : ℕ) (pw : PendingWrites) (w : WriteState) : WriteState :=
  { w with
    writes := setBytes s (pw.bytes + n) w.writes
    taken := Function.update w.taken s (w.taken s ++ pw.rest.take n) }

section Round

variable {pw : PendingWrites} {n : ℕ}

theorem Partly.getWrite (h : Partly w s accepted cut pw) : socketBufferGetWrite s w = some pw := by
  rw [getWrite_eq_head?, h.writes]
  rfl

theorem Partly.rest (h : Partly w s accepted cut pw) : w.rest s = pw.rest := by
  rw [WriteState.rest, h.getWrite]

theorem Partly.length_rest (h : Partly w s accepted cut pw) :
    pw.rest.length = pw.total - pw.bytes := by
  rw [PendingWrites.rest, List.length_drop, h.total]

theorem Partly.continueRound_failed (h : Partly w s accepted cut pw) {answer : WritevAnswer}
    (hwritev : socketWritev s (unwritten pw.bytes 0 pw.iovecs) answer w = (w, none)) :
    continueRound s answer w = some (removed s w, .socketError) := by
  simp only [continueRound, socketContinueWrite, h.getWrite, Option.bind_eq_bind,
    Option.bind_some, hwritev]
  rfl

theorem Partly.continueRound_wrote (h : Partly w s accepted cut pw) {answer : WritevAnswer}
    (hwritev : socketWritev s (unwritten pw.bytes 0 pw.iovecs) answer w =
      ({ w with taken := Function.update w.taken s (w.taken s ++ pw.rest.take n) }, some n)) :
    continueRound s answer w =
      if pw.bytes + n = pw.total then some (removed s (advanced s n pw w), .complete ())
      else some (advanced s n pw w, .interrupted) := by
  simp only [continueRound, socketContinueWrite, h.getWrite, Option.bind_eq_bind,
    Option.bind_some, hwritev]
  split <;> rfl

theorem writesOf_removed (s : ℕ) (w : WriteState) :
    (removed s w).writesOf s = (w.writesOf s).tail :=
  filter_eraseP _ w.writes

theorem count_removed (s : ℕ) (w : WriteState) :
    (removed s w).writePending.count s = w.writePending.count s - 1 :=
  List.count_erase_self

theorem Partly.writesOf_advanced (h : Partly w s accepted cut pw) (n : ℕ) :
    (advanced s n pw w).writesOf s = [{ pw with bytes := pw.bytes + n }] :=
  filter_setBytes_self h.writes

theorem taken_advanced (s n : ℕ) (pw : PendingWrites) (w : WriteState) :
    (advanced s n pw w).taken s = w.taken s ++ pw.rest.take n :=
  Function.update_self s _ w.taken

theorem othersKept_advanced (s n : ℕ) (pw : PendingWrites) (w : WriteState) :
    OthersKept s w (advanced s n pw w) := by
  intro t ht
  exact ⟨filter_setBytes_of_ne ht _ w.writes, rfl, Function.update_of_ne ht _ _⟩

theorem Partly.failed (h : Partly w s accepted cut pw) : Leaving (removed s w) s accepted true := by
  apply Leaving.whole
  constructor
  · rw [writesOf_removed, h.writes, List.tail_cons]
  · rw [count_removed, h.count]
  · exact fun hcut => nomatch hcut

theorem Partly.taken_more (h : Partly w s accepted cut pw) (n : ℕ) (hcut : cut = false) :
    ∃ before header body, accepted = before ++ [(header, body)] ∧
      pw.iovecs.flatten = mqttPacketSends header body ∧
      w.taken s ++ pw.rest.take n = wire before ++ pw.iovecs.flatten.take (pw.bytes + n) := by
  obtain ⟨before, header, body, hsplit, hpacket, htaken⟩ := h.taken hcut
  refine ⟨before, header, body, hsplit, hpacket, ?_⟩
  rw [htaken, List.append_assoc, PendingWrites.rest, List.take_add]

theorem Partly.wroteAll (h : Partly w s accepted cut pw) (hall : pw.bytes + n = pw.total) :
    Whole (removed s (advanced s n pw w)) s accepted cut where
  writes := by rw [writesOf_removed, h.writesOf_advanced, List.tail_cons]
  count := (count_removed s _).trans (congrArg (· - 1) h.count)
  taken := by
    intro hcut
    obtain ⟨before, header, body, rfl, hpacket, htaken⟩ := h.taken_more n hcut
    calc
      (advanced s n pw w).taken s = w.taken s ++ pw.rest.take n := taken_advanced s n pw w
      _ = wire before ++ pw.iovecs.flatten.take (pw.bytes + n) := htaken
      _ = wire before ++ mqttPacketSends header body := by
        rw [hall, h.total, List.take_length, hpacket]
      _ = wire (before ++ [(header, body)]) := (wire_snoc before header body).symm

theorem Partly.wrotePart (h : Partly w s accepted cut pw) (hmore : pw.bytes + n < pw.total) :
    Partly (advanced s n pw w) s accepted cut { pw with bytes := pw.bytes + n } where
  writes := h.writesOf_advanced n
  count := h.count
  total := h.total
  bytes := hmore
  taken := by
    intro hcut
    rw [taken_advanced]
    exact h.taken_more n hcut

theorem Whole.rest (h : Whole w s accepted cut) : w.rest s = [] := by
  rw [WriteState.rest, getWrite_eq_head?, h.writes]
  rfl

theorem round_spec (h : Leaving w s accepted cut) (hpending : socketNoPendingWrites s w = false)
    (answer : WritevAnswer) :
    ∃ w' rc, continueRound s answer w = some (w', rc) ∧ OthersKept s w w' ∧
      (answer = .failed ∧ rc = .socketError ∧ Leaving w' s accepted true ∨
        answer ≠ .failed ∧ rc ≠ .socketError ∧ Leaving w' s accepted cut ∧
          w'.taken s = w.taken s ++ (w.rest s).take answer.bytes ∧
          w'.rest s = (w.rest s).drop answer.bytes) := by
  cases h with
  | whole h =>
      rw [noPendingWrites_iff.mpr h.count] at hpending
      exact nomatch hpending
  | partly pw h =>
      have hflat : (unwritten pw.bytes 0 pw.iovecs).flatten = pw.rest :=
        flatten_unwritten pw.bytes 0 pw.iovecs
      rw [h.rest]
      rcases writev_spec s (unwritten pw.bytes 0 pw.iovecs) answer w with
        ⟨hanswer, hfailed⟩ | ⟨hanswer, n, hn, hwrote⟩
      · exact ⟨_, _, h.continueRound_failed hfailed, othersKept_remove s w,
          .inl ⟨hanswer, rfl, h.failed⟩⟩
      · rw [hflat] at hn hwrote
        have htake : pw.rest.take n = pw.rest.take answer.bytes := by
          rw [hn, ← List.take_eq_take_min]
        have hlength := h.length_rest
        have hbytes := h.bytes
        rw [h.continueRound_wrote hwrote]
        by_cases hall : pw.bytes + n = pw.total
        · rw [if_pos hall]
          have hwhole := h.wroteAll hall
          refine ⟨_, .complete (), rfl, ?_,
            .inr ⟨hanswer, (fun hrc => nomatch hrc), .whole hwhole, ?_, ?_⟩⟩
          · exact (othersKept_advanced s n pw w).trans (othersKept_remove s _)
          · rw [← htake]
            exact taken_advanced s n pw w
          · rw [hwhole.rest, List.drop_eq_nil_of_le (by omega)]
        · rw [if_neg hall]
          have hpart := h.wrotePart (n := n) (by omega)
          refine ⟨_, .interrupted, rfl, othersKept_advanced s n pw w,
            .inr ⟨hanswer, (fun hrc => nomatch hrc), .partly _ hpart, ?_, ?_⟩⟩
          · rw [← htake]
            exact taken_advanced s n pw w
          · have hroom : answer.bytes = n := by omega
            rw [hpart.rest, PendingWrites.rest, PendingWrites.rest, List.drop_drop, hroom]

end Round

theorem close_spec (h : Leaving w s accepted cut) :
    OthersKept s w (socketClose s w) ∧ Leaving (socketClose s w) s [] false := by
  constructor
  · exact (othersKept_remove s w).trans (othersKept_taken [])
  · apply Leaving.whole
    constructor
    · have hwrites : (socketClose s w).writesOf s = (w.writesOf s).tail := writesOf_removed s w
      cases h with
      | whole h => rw [hwrites, h.writes, List.tail_nil]
      | partly pw h => rw [hwrites, h.writes, List.tail_cons]
    · have hcount : (socketClose s w).writePending.count s = w.writePending.count s - 1 :=
        count_removed s w
      cases h with
      | whole h => rw [hcount, h.count]
      | partly pw h => rw [hcount, h.count]
    · intro _
      exact Function.update_self s [] w.taken

end Sockets

/-! ## Whole runs -/

def Sender.Consistent (y : Sender) : Prop :=
  ∀ s, Leaving y.out s (y.accepted s) (y.cut s)

section Runs

variable {y : Sender} {w : WriteState} {s : ℕ}

theorem consistent_init : Sender.init.Consistent := by
  intro s
  exact .whole ⟨rfl, rfl, fun _ => rfl⟩

theorem senderStep_sends {header : UInt8} {bufs : List (List UInt8)} {answer : WritevAnswer}
    {rc : Completion Unit} (h : mqttPacketSendsOn s header bufs answer y.out = (w, rc))
    (hrc : rc ≠ .socketError) :
    senderStep y (.sends s header bufs answer) = some { y with
      out := w
      accepted := Function.update y.accepted s (y.accepted s ++ [(header, bufs.flatten)]) } := by
  cases rc with
  | complete a => simp only [senderStep, h]
  | interrupted => simp only [senderStep, h]
  | socketError => exact absurd rfl hrc

theorem senderStep_round {answer : WritevAnswer} {rc : Completion Unit}
    (hpending : socketNoPendingWrites s y.out = false)
    (h : continueRound s answer y.out = some (w, rc)) (hrc : rc ≠ .socketError) :
    senderStep y (.round s answer) = some { y with out := w } := by
  cases rc with
  | complete a => simp [senderStep, hpending, h]
  | interrupted => simp [senderStep, hpending, h]
  | socketError => exact absurd rfl hrc

theorem senderStep_round_failed {answer : WritevAnswer}
    (hpending : socketNoPendingWrites s y.out = false)
    (h : continueRound s answer y.out = some (w, .socketError)) :
    senderStep y (.round s answer) =
      some { y with out := w, cut := Function.update y.cut s true } := by
  simp [senderStep, hpending, h]

theorem Sender.Consistent.change (h : y.Consistent) (hkept : OthersKept s y.out w)
    {accepted : List (UInt8 × List UInt8)} {cut : Bool} (hs : Leaving w s accepted cut) :
    Sender.Consistent ⟨w, Function.update y.accepted s accepted, Function.update y.cut s cut⟩ := by
  intro t
  by_cases ht : t = s
  · subst ht
    simp only [Function.update_self]
    exact hs
  · simp only [Function.update_of_ne ht]
    exact (h t).transport hkept ht

theorem Sender.Consistent.step (h : y.Consistent) (event : SendEvent) :
    ∃ y', senderStep y event = some y' ∧ y'.Consistent := by
  cases event with
  | sends s header bufs answer =>
      rcases sends_spec (h s) header bufs answer with hrefused | ⟨w, rc, hsent, hrc, hkept, hs⟩
      · refine ⟨y, ?_, h⟩
        simp only [senderStep, hrefused]
      · have hnew := h.change hkept hs
        rw [Function.update_eq_self] at hnew
        exact ⟨_, senderStep_sends hsent hrc, hnew⟩
  | round s answer =>
      cases hpending : socketNoPendingWrites s y.out with
      | true =>
          refine ⟨y, ?_, h⟩
          simp only [senderStep, hpending, if_true]
      | false =>
          obtain ⟨w, rc, hround, hkept, hs⟩ := round_spec (h s) hpending answer
          rcases hs with ⟨_, rfl, hs⟩ | ⟨_, hrc, hs, _⟩
          · have hnew := h.change hkept hs
            rw [Function.update_eq_self] at hnew
            exact ⟨_, senderStep_round_failed hpending hround, hnew⟩
          · have hnew := h.change hkept hs
            rw [Function.update_eq_self, Function.update_eq_self] at hnew
            exact ⟨_, senderStep_round hpending hround hrc, hnew⟩
  | close s =>
      obtain ⟨hkept, hs⟩ := close_spec (h s)
      exact ⟨_, rfl, h.change hkept hs⟩

theorem consistent_run (events : List SendEvent) :
    ∃ y, events.foldlM senderStep .init = some y ∧ y.Consistent := by
  apply foldlM_list_rule (fun _ (y : Sender) => y.Consistent) consistent_init
  intro _ event _ y _ h
  exact h.step event

variable {accepted : List (UInt8 × List UInt8)} {cut : Bool}

theorem Leaving.rest (h : Leaving w s accepted cut) (hcut : cut = false) :
    w.taken s ++ w.rest s = wire accepted := by
  cases h with
  | whole h => rw [h.rest, h.taken hcut, List.append_nil]
  | partly pw h =>
      obtain ⟨before, header, body, rfl, hpacket, htaken⟩ := h.taken hcut
      rw [h.rest, htaken, wire_snoc, ← hpacket, List.append_assoc, PendingWrites.rest,
        List.take_append_drop]

theorem Leaving.wire_dropLast (h : Leaving w s accepted cut) (hcut : cut = false) :
    (wire accepted.dropLast).IsPrefix (w.taken s) := by
  cases h with
  | whole h =>
      rw [h.taken hcut]
      obtain ⟨last, hlast⟩ := List.dropLast_prefix accepted
      refine ⟨wire last, ?_⟩
      rw [← wire_append, hlast]
  | partly pw h =>
      obtain ⟨before, header, body, rfl, hpacket, htaken⟩ := h.taken hcut
      rw [List.dropLast_concat, htaken]
      exact ⟨_, rfl⟩

theorem Leaving.rest_eq_nil (h : Leaving w s accepted cut) :
    w.rest s = [] ↔ socketNoPendingWrites s w = true := by
  rw [noPendingWrites_iff]
  cases h with
  | whole h => exact iff_of_true h.rest h.count
  | partly pw h =>
      rw [h.rest, h.count, ← List.length_eq_zero_iff, h.length_rest]
      have hbytes := h.bytes
      omega

theorem Leaving.noPendingWrites (h : Leaving w s accepted cut) (hcut : cut = false) :
    socketNoPendingWrites s w = true ↔ w.taken s = wire accepted := by
  rw [← h.rest_eq_nil, ← h.rest hcut, List.self_eq_append_right]

/-- **Packets leave whole and in order.**  Let allocation succeed.  No run goes through a null
pointer, and for a socket for which no packet was given up, the kernel has taken the packets
accepted for it, one after the other: all but the last are whole, the rest of the last one is
kept, and the socket has no pending write exactly if nothing is missing. -/
theorem packets_leave_whole (events : List SendEvent) :
    ∃ y, events.foldlM senderStep .init = some y ∧ ∀ s, y.cut s = false →
      y.out.taken s ++ y.out.rest s = wire (y.accepted s) ∧
        (wire (y.accepted s).dropLast).IsPrefix (y.out.taken s) ∧
        (socketNoPendingWrites s y.out = true ↔ y.out.taken s = wire (y.accepted s)) := by
  obtain ⟨y, hrun, h⟩ := consistent_run events
  refine ⟨y, hrun, ?_⟩
  intro s hcut
  exact ⟨(h s).rest hcut, (h s).wire_dropLast hcut, (h s).noPendingWrites hcut⟩

/-! ## A pending write goes out -/

def SendEvent.room (s : ℕ) : SendEvent → ℕ
  | .round t answer => if t = s then answer.bytes else 0
  | _ => 0

def SendEvent.Spares (s : ℕ) : SendEvent → Prop
  | .sends _ _ _ _ => True
  | .round t answer => t = s → answer ≠ .failed
  | .close t => t ≠ s

theorem OthersKept.rest {t : ℕ} {w' : WriteState} (h : OthersKept s w w') (ht : t ≠ s) :
    w'.rest t = w.rest t := by
  rw [WriteState.rest, WriteState.rest, getWrite_eq_head?, getWrite_eq_head?, (h t ht).1]

theorem step_rest (h : y.Consistent) (hpending : socketNoPendingWrites s y.out = false)
    {event : SendEvent} (hspares : event.Spares s) {y' : Sender}
    (hstep : senderStep y event = some y') :
    y'.out.taken s = y.out.taken s ++ (y.out.rest s).take (event.room s) ∧
      y'.out.rest s = (y.out.rest s).drop (event.room s) := by
  cases event with
  | sends t header bufs answer =>
      simp only [SendEvent.room, List.take_zero, List.append_nil, List.drop_zero]
      rcases sends_spec (h t) header bufs answer with hrefused | ⟨w, rc, hsent, hrc, hkept, _⟩
      · simp only [senderStep, hrefused] at hstep
        obtain rfl := Option.some.inj hstep
        exact ⟨rfl, rfl⟩
      · have ht : s ≠ t := by
          rintro rfl
          rw [sends_refused hpending] at hsent
          exact hrc (Prod.mk.inj hsent).2.symm
        rw [senderStep_sends hsent hrc] at hstep
        obtain rfl := Option.some.inj hstep
        exact ⟨(hkept s ht).2.2, hkept.rest ht⟩
  | round t answer =>
      cases hpending' : socketNoPendingWrites t y.out with
      | true =>
          simp only [senderStep, hpending', if_true] at hstep
          obtain rfl := Option.some.inj hstep
          have ht : ¬ t = s := by
            rintro rfl
            rw [hpending] at hpending'
            exact nomatch hpending'
          simp [SendEvent.room, ht]
      | false =>
          obtain ⟨w, rc, hround, hkept, hs⟩ := round_spec (h t) hpending' answer
          by_cases ht : t = s
          · subst ht
            rcases hs with ⟨hanswer, _⟩ | ⟨_, hrc, _, htaken, hrest⟩
            · exact absurd hanswer (hspares rfl)
            · rw [senderStep_round hpending' hround hrc] at hstep
              obtain rfl := Option.some.inj hstep
              simp only [SendEvent.room, if_true]
              exact ⟨htaken, hrest⟩
          · simp only [SendEvent.room, if_neg ht, List.take_zero, List.append_nil,
              List.drop_zero]
            have hs' : s ≠ t := fun h => ht h.symm
            rcases hs with ⟨_, rfl, _⟩ | ⟨_, hrc, _⟩
            · rw [senderStep_round_failed hpending' hround] at hstep
              obtain rfl := Option.some.inj hstep
              exact ⟨(hkept s hs').2.2, hkept.rest hs'⟩
            · rw [senderStep_round hpending' hround hrc] at hstep
              obtain rfl := Option.some.inj hstep
              exact ⟨(hkept s hs').2.2, hkept.rest hs'⟩
  | close t =>
      obtain ⟨hkept, _⟩ := close_spec (h t)
      obtain rfl := Option.some.inj hstep
      simp only [SendEvent.room, List.take_zero, List.append_nil, List.drop_zero]
      exact ⟨(hkept s hspares.symm).2.2, hkept.rest hspares.symm⟩

/-- **A pending write goes out.**  As soon as the rounds of `Socket_continueWrites` have found
room for what was missing, it has been written and the socket takes packets again, whatever is
sent meanwhile on this socket and happens on the others, unless a round fails or the socket is
closed. -/
theorem pending_write_goes_out (events later : List SendEvent) (s : ℕ) (y : Sender)
    (hrun : events.foldlM senderStep .init = some y) (hspares : ∀ event ∈ later, event.Spares s)
    (hroom : (y.out.rest s).length ≤ (later.map (SendEvent.room s)).sum) :
    ∃ (start : List SendEvent) (y' : Sender),
      start.IsPrefix later ∧ start.foldlM senderStep y = some y' ∧
      socketNoPendingWrites s y'.out = true ∧
        y'.out.taken s = y.out.taken s ++ y.out.rest s := by
  have h : y.Consistent := by
    obtain ⟨y', hrun', h⟩ := consistent_run events
    rw [hrun] at hrun'
    obtain rfl := Option.some.inj hrun'
    exact h
  clear hrun
  induction later generalizing y with
  | nil =>
      have hnil : y.out.rest s = [] := List.length_eq_zero_iff.mp (Nat.le_zero.mp hroom)
      refine ⟨[], y, List.prefix_rfl, rfl, (h s).rest_eq_nil.mp hnil, ?_⟩
      rw [hnil, List.append_nil]
  | cons event later ih =>
      cases hpending : socketNoPendingWrites s y.out with
      | true =>
          have hnil : y.out.rest s = [] := (h s).rest_eq_nil.mpr hpending
          refine ⟨[], y, List.nil_prefix, rfl, hpending, ?_⟩
          rw [hnil, List.append_nil]
      | false =>
          obtain ⟨y₁, hstep, h₁⟩ := h.step event
          obtain ⟨htaken, hrest⟩ :=
            step_rest h hpending (hspares event List.mem_cons_self) hstep
          rw [List.map_cons, List.sum_cons] at hroom
          obtain ⟨start, y', hstart, hrun, hfree, hall⟩ := ih y₁
            (fun e he => hspares e (List.mem_cons_of_mem event he))
            (by rw [hrest, List.length_drop]; omega) h₁
          refine ⟨event :: start, y', List.cons_prefix_cons.mpr ⟨rfl, hstart⟩, ?_, hfree, ?_⟩
          · rw [List.foldlM_cons, hstep]
            exact hrun
          · rw [hall, htaken, hrest, List.append_assoc, List.take_append_drop]

end Runs

def halfPing : List SendEvent := [.sends 5 192 [[]] (.room 1)]

def otherHalf : List SendEvent := [.sends 5 48 [[0, 1, 97]] (.room 9), .round 5 (.room 4)]

theorem pending_write_goes_out_halfPing :
    ∃ y, halfPing.foldlM senderStep .init = some y ∧
      ((∀ event ∈ otherHalf, event.Spares 5) ∧
        (y.out.rest 5).length ≤ (otherHalf.map (SendEvent.room 5)).sum) ∧
      ∃ (start : List SendEvent) (y' : Sender), start.IsPrefix otherHalf ∧
        start.foldlM senderStep y = some y' ∧ socketNoPendingWrites 5 y'.out = true ∧
          y'.out.taken 5 = y.out.taken 5 ++ y.out.rest 5 := by
  have hencode : mqttPacketEncode 0 = [0] := encode_small (by decide)
  have hrun : halfPing.foldlM senderStep .init = some
      { out := ⟨[⟨5, 1, 2, [[192, 0], []]⟩], [5], Function.update (fun _ => []) 5 [192]⟩
        accepted := Function.update (fun _ => []) 5 [(192, [])]
        cut := fun _ => false } := by
    simp [halfPing, senderStep, mqttPacketSendsOn, socketPutdatas, socketNoPendingWrites,
      Sender.init, socketWritev, hencode, socketBufferPendingWrite]
  have hspares : ∀ event ∈ otherHalf, event.Spares 5 := by
    intro event hevent
    simp only [otherHalf, List.mem_cons, List.not_mem_nil, or_false] at hevent
    rcases hevent with rfl | rfl
    · trivial
    · exact fun _ h => nomatch h
  have hroom : (WriteState.rest ⟨[⟨5, 1, 2, [[192, 0], []]⟩], [5],
      Function.update (fun _ => []) 5 [192]⟩ 5).length ≤
        (otherHalf.map (SendEvent.room 5)).sum := by
    decide
  exact ⟨_, hrun, ⟨hspares, hroom⟩,
    pending_write_goes_out halfPing otherHalf 5 _ hrun hspares hroom⟩

end CatDect.Mqtt
