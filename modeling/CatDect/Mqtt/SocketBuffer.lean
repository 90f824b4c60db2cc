import CatDect.Mqtt.Framing
import CatDect.Support.Interleaving

/-!
# Packets that arrive in pieces

When `MQTTPacket_Factory` runs out of bytes it gives up, and the next call begins again from
what `SocketBuffer.c` has kept.  All sockets share one default queue.  `factory_spec` says
that a call behaves as if the bytes kept were still in the socket; over any run, the packets
handed on for a socket are those of its stream, however it was cut and whatever other sockets
received meanwhile.
-/

namespace CatDect.Mqtt

open CatDect.Support CatDect.Support.Reader

/-! ## The code -/

/-- `headerlen` and `datalen` are the lengths of the lists; `none` stands for socket 0. -/
structure SocketQueue where
  socket : Option ℕ
  index : ℕ
  fixedHeader : List UInt8
  data : List UInt8

def SocketQueue.empty : SocketQueue := ⟨none, 0, [], []⟩

/-- `queues` looked up by socket, `def_queue`, and what the kernel has received. -/
structure Net where
  queues : ℕ → Option SocketQueue
  defQueue : SocketQueue
  arrived : ℕ → List UInt8

inductive Completion (α : Type)
  | complete (a : α)
  | interrupted
  | socketError

def SocketM (α : Type) := Net → Net × Completion α

instance : Monad SocketM where
  pure a := fun w => (w, .complete a)
  bind x f := fun w =>
    match x w with
    | (w, .complete a) => f a w
    | (w, .interrupted) => (w, .interrupted)
    | (w, .socketError) => (w, .socketError)

def socketError {α : Type} : SocketM α := fun w => (w, .socketError)

def Net.setQueue (w : Net) (s : ℕ) (q : Option SocketQueue) : Net :=
  { w with queues := Function.update w.queues s q }

def Net.setArrived (w : Net) (s : ℕ) (l : List UInt8) : Net :=
  { w with arrived := Function.update w.arrived s l }

/-- What follows `index` in `fixed_header` is overwritten. -/
def SocketQueue.append (q : SocketQueue) (c : UInt8) : SocketQueue :=
  { q with fixedHeader := q.fixedHeader.take q.index ++ [c], index := q.index + 1 }

def socketBufferGetQueuedChar (s : ℕ) : SocketM UInt8 := fun w =>
  match w.queues s with
  | some q =>
      match q.fixedHeader[q.index]? with
      | some c => (w.setQueue s (some { q with index := q.index + 1 }), .complete c)
      | none => if 4 < q.index then (w, .socketError) else (w, .interrupted)
  | none => (w, .interrupted)

/-- The queue is moved to the list if it is the default queue. -/
def socketBufferInterrupted (s : ℕ) (data : List UInt8) (w : Net) : Net :=
  match w.queues s with
  | some q => w.setQueue s (some { q with index := 0, data := data })
  | none =>
      { w with
        queues := Function.update w.queues s
          (some { w.defQueue with socket := some s, index := 0, data := data })
        defQueue := .empty }

/-- The queue of the socket becomes the default queue, which is cleared in any case. -/
def socketBufferComplete (s : ℕ) (w : Net) : Net :=
  { w with queues := Function.update w.queues s none, defQueue := .empty }

def socketBufferCleanup (s : ℕ) (w : Net) : Net :=
  { w with
    queues := Function.update w.queues s none
    defQueue := if w.defQueue.socket = some s then .empty else w.defQueue }

def socketBufferQueueChar (s : ℕ) (c : UInt8) (w : Net) : Net :=
  match w.queues s with
  | some q => if 4 < q.index then w else w.setQueue s (some (q.append c))
  | none =>
      match w.defQueue.socket with
      | none =>
          let q := { w.defQueue with socket := some s, index := 0, data := [] }
          { w with defQueue := q.append c }
      | some t =>
          -- "attempt to reuse socket queue", and "fixed_header field full"
          if t ≠ s ∨ 4 < w.defQueue.index then w
          else { w with defQueue := w.defQueue.append c }

def socketGetch (s : ℕ) : SocketM UInt8 := fun w =>
  match socketBufferGetQueuedChar s w with
  | (w, .interrupted) =>
      match w.arrived s with
      | [] => (socketBufferInterrupted s [] w, .interrupted)
      | c :: later => (socketBufferQueueChar s c (w.setArrived s later), .complete c)
  | (w, .complete c) => (w, .complete c)
  | (w, .socketError) => (w, .socketError)

def Net.queuedData (w : Net) (s : ℕ) : List UInt8 :=
  match w.queues s with
  | some q => q.data
  | none => []

def socketGetdata (s : ℕ) (bytes : ℕ) : SocketM (List UInt8) := fun w =>
  if bytes = 0 then (socketBufferComplete s w, .complete [])
  else
    let wanted := bytes - (w.queuedData s).length
    let data := w.queuedData s ++ (w.arrived s).take wanted
    let w := w.setArrived s ((w.arrived s).drop wanted)
    if data.length = bytes then (socketBufferComplete s w, .complete data)
    else (socketBufferInterrupted s data w, .interrupted)

/-- Up to the call of the function of the packet type. -/
def mqttPacketFactory (s : ℕ) : SocketM (UInt8 × List UInt8) := do
  let (header, remainingLength) ← packetHeader (socketGetch s) socketError
  let data ← socketGetdata s remainingLength
  pure (header, data)

/-! ## A header read from a socket -/

/-- In the middle of a header: `used` has been read by this call, `ahead` is queued behind it,
and `data` behind the header. -/
inductive MidPacket (w : Net) (s : ℕ) (used ahead data : List UInt8) : Prop
  | queued (hqueue : w.queues s = some ⟨some s, used.length, used ++ ahead, data⟩)
      (hdef : w.defQueue = .empty)
  | fresh (hqueue : w.queues s = none) (hahead : ahead = []) (hdata : data = [])
      (hdef : w.defQueue = if used = [] then .empty else ⟨some s, used.length, used, []⟩)

def Elsewhere (s : ℕ) (w w' : Net) : Prop :=
  ∀ t, t ≠ s → w'.queues t = w.queues t ∧ w'.arrived t = w.arrived t

theorem Elsewhere.refl (s : ℕ) (w : Net) : Elsewhere s w w := fun _ _ => ⟨rfl, rfl⟩

theorem Elsewhere.trans {s : ℕ} {w w' w'' : Net} (h : Elsewhere s w w')
    (h' : Elsewhere s w' w'') : Elsewhere s w w'' :=
  fun t ht => ⟨(h' t ht).1.trans (h t ht).1, (h' t ht).2.trans (h t ht).2⟩

/-- A header is being read of which `r` reads the rest; data is kept only behind a header that
is complete. -/
structure Ready {α : Type} (r : Reader UInt8 α) (k s : ℕ) (w : Net)
    (used ahead data : List UInt8) : Prop where
  reading : MidPacket w s used ahead data
  room : used.length + k ≤ 5
  complete : data ≠ [] → ∃ a m, r ahead = .done a m

def QueuedFirst (s : ℕ) (w w' : Net) (ahead' : List UInt8) : Prop :=
  ∃ read, w.arrived s = read ++ w'.arrived s ∧ (ahead' = [] ∨ read = [])

/-- The action takes from the socket what the reader takes, up to `k` bytes, from the bytes
queued and received. -/
structure Simulates {α : Type} (s k : ℕ) (x : SocketM α) (r : Reader UInt8 α) : Prop where
  done : ∀ {w : Net} {used ahead data : List UInt8} {a : α} {rest : List UInt8},
    Ready r k s w used ahead data → r (ahead ++ w.arrived s) = .done a rest →
      ∃ w' taken ahead', x w = (w', .complete a) ∧ Elsewhere s w w' ∧ taken.length ≤ k ∧
        MidPacket w' s (used ++ taken) ahead' data ∧ ahead ++ w.arrived s = taken ++ rest ∧
        rest = ahead' ++ w'.arrived s ∧ QueuedFirst s w w' ahead'
  outside : ∀ {w : Net} {used ahead data : List UInt8},
    Ready r k s w used ahead data → r (ahead ++ w.arrived s) = .outside →
      ∃ w', x w = (w', .interrupted) ∧ Elsewhere s w w' ∧
        w'.queues s = some ⟨some s, 0, used ++ (ahead ++ w.arrived s), []⟩ ∧
        w'.arrived s = [] ∧ w'.defQueue = .empty
  refused : ∀ {w : Net} {used ahead data : List UInt8},
    Ready r k s w used ahead data → r (ahead ++ w.arrived s) = .refused →
      ∃ w' used' ahead', x w = (w', .socketError) ∧ Elsewhere s w w' ∧
        MidPacket w' s used' ahead' data

section Simulation

variable {α β : Type} {s k j : ℕ} {w : Net} {used ahead data : List UInt8}

theorem QueuedFirst.trans {w w' w'' : Net} {ahead' ahead'' taken : List UInt8}
    (h : QueuedFirst s w w' ahead') (h' : QueuedFirst s w' w'' ahead'')
    (hsplit : ahead' ++ w'.arrived s = taken ++ (ahead'' ++ w''.arrived s)) :
    QueuedFirst s w w'' ahead'' := by
  obtain ⟨read, harrived, hempty⟩ := h
  obtain ⟨read', harrived', hempty'⟩ := h'
  refine ⟨read ++ read', by rw [harrived, harrived', List.append_assoc], ?_⟩
  rcases hempty' with hnil | rfl
  · exact .inl hnil
  · rcases hempty with rfl | rfl
    · rw [harrived', List.nil_append, List.nil_append, ← List.append_assoc] at hsplit
      exact .inl (List.append_eq_nil_iff.mp (List.self_eq_append_left.mp hsplit)).2
    · exact .inr rfl

theorem bind_of_complete {x : SocketM α} {y : α → SocketM β} {w' : Net} {a : α}
    (h : x w = (w', .complete a)) : (x >>= y) w = y a w' := by
  show (match x w with
    | (w, .complete a) => y a w
    | (w, .interrupted) => (w, .interrupted)
    | (w, .socketError) => (w, .socketError)) = _
  rw [h]

theorem bind_of_interrupted {x : SocketM α} {y : α → SocketM β} {w' : Net}
    (h : x w = (w', .interrupted)) : (x >>= y) w = (w', .interrupted) := by
  show (match x w with
    | (w, .complete a) => y a w
    | (w, .interrupted) => (w, .interrupted)
    | (w, .socketError) => (w, .socketError)) = _
  rw [h]

theorem bind_of_socketError {x : SocketM α} {y : α → SocketM β} {w' : Net}
    (h : x w = (w', .socketError)) : (x >>= y) w = (w', .socketError) := by
  show (match x w with
    | (w, .complete a) => y a w
    | (w, .interrupted) => (w, .interrupted)
    | (w, .socketError) => (w, .socketError)) = _
  rw [h]

theorem simulates_pure (a : α) : Simulates s 0 (pure a) (pure a) where
  done := by
    intro w used ahead data b rest h hdone
    obtain ⟨rfl, rfl⟩ := pure_done_iff.mp hdone
    refine ⟨w, [], ahead, rfl, Elsewhere.refl s w, Nat.le_refl 0, ?_, rfl, rfl, [], rfl, .inr rfl⟩
    rw [List.append_nil]
    exact h.reading
  outside := fun _ hdone => nomatch hdone
  refused := fun _ hdone => nomatch hdone

theorem simulates_error : Simulates s 0 (socketError : SocketM α) refuse where
  done := fun _ hdone => nomatch hdone
  outside := fun _ hdone => nomatch hdone
  refused := fun h _ => ⟨_, _, _, rfl, Elsewhere.refl s _, h.reading⟩

theorem Simulates.mono {x : SocketM α} {r : Reader UInt8 α} (h : Simulates s j x r)
    (hjk : j ≤ k) : Simulates s k x r where
  done := by
    intro w used ahead data a rest hr hdone
    have hroom := hr.room
    obtain ⟨w', taken, ahead', hx, helse, htaken, hrest⟩ :=
      h.done ⟨hr.reading, by omega, hr.complete⟩ hdone
    exact ⟨w', taken, ahead', hx, helse, htaken.trans hjk, hrest⟩
  outside := by
    intro w used ahead data hr hdone
    have hroom := hr.room
    exact h.outside ⟨hr.reading, by omega, hr.complete⟩ hdone
  refused := by
    intro w used ahead data hr hdone
    have hroom := hr.room
    exact h.refused ⟨hr.reading, by omega, hr.complete⟩ hdone

theorem Ready.first {r : Reader UInt8 α} {f : α → Reader UInt8 β}
    (h : Ready (r >>= f) (k + j) s w used ahead data) : Ready r k s w used ahead data where
  reading := h.reading
  room := by
    have hroom := h.room
    omega
  complete := by
    intro hdata
    obtain ⟨b, m, hb⟩ := h.complete hdata
    obtain ⟨a, mid, ha, -⟩ := bind_done_iff.mp hb
    exact ⟨a, mid, ha⟩

theorem Ready.next {r : Reader UInt8 α} {f : α → Reader UInt8 β} (hr : Steady r)
    (h : Ready (r >>= f) (k + j) s w used ahead data) {a : α} {rest : List UInt8}
    (hdone : r (ahead ++ w.arrived s) = .done a rest) {w' : Net} {taken ahead' : List UInt8}
    (hreading : MidPacket w' s (used ++ taken) ahead' data) (htaken : taken.length ≤ k)
    (hrest : rest = ahead' ++ w'.arrived s) (hfirst : QueuedFirst s w w' ahead') :
    Ready (f a) j s w' (used ++ taken) ahead' data where
  reading := hreading
  room := by
    have hroom := h.room
    rw [List.length_append]
    omega
  complete := by
    intro hdata
    obtain ⟨b, m, hb⟩ := h.complete hdata
    obtain ⟨a', mid, ha, hfa⟩ := bind_done_iff.mp hb
    have heq := hr.done ahead a' mid (w.arrived s) ha
    rw [hdone] at heq
    injection heq with haa hmid
    obtain ⟨read, harrived, hempty⟩ := hfirst
    rw [hrest, harrived, ← List.append_assoc] at hmid
    have hahead : ahead' = mid ++ read := List.append_cancel_right hmid
    have hread : read = [] := by
      rcases hempty with hnil | hnil
      · exact (List.append_eq_nil_iff.mp (hahead.symm.trans hnil)).2
      · exact hnil
    rw [hread, List.append_nil] at hahead
    rw [haa, hahead]
    exact ⟨b, m, hfa⟩

theorem Simulates.bind {x : SocketM α} {r : Reader UInt8 α} {y : α → SocketM β}
    {f : α → Reader UInt8 β} (hx : Simulates s k x r) (hr : Steady r)
    (hy : ∀ a, Simulates s j (y a) (f a)) : Simulates s (k + j) (x >>= y) (r >>= f) where
  done := by
    intro w used ahead data b rest h hdone
    obtain ⟨a, mid, hra, hfa⟩ := bind_done_iff.mp hdone
    obtain ⟨w₁, taken, ahead₁, hx₁, helse, htaken, hreading, hsplit, hmid, hfirst⟩ :=
      hx.done h.first hra
    have hready := h.next hr hra hreading htaken hmid hfirst
    rw [hmid] at hfa
    obtain ⟨w₂, taken₂, ahead₂, hy₂, helse₂, htaken₂, hreading₂, hsplit₂, hrest, hfirst₂⟩ :=
      (hy a).done hready hfa
    refine ⟨w₂, taken ++ taken₂, ahead₂, ?_, helse.trans helse₂, ?_, ?_, ?_, hrest, ?_⟩
    · exact (bind_of_complete hx₁).trans hy₂
    · rw [List.length_append]
      omega
    · rw [← List.append_assoc]
      exact hreading₂
    · rw [hsplit, hmid, hsplit₂, List.append_assoc]
    · exact hfirst.trans hfirst₂ (hsplit₂.trans (congrArg _ hrest))
  outside := by
    intro w used ahead data h hdone
    cases hra : r (ahead ++ w.arrived s) with
    | done a mid =>
        obtain ⟨w₁, taken, ahead₁, hx₁, helse, htaken, hreading, hsplit, hmid, hfirst⟩ :=
          hx.done h.first hra
        have hready := h.next hr hra hreading htaken hmid hfirst
        have hfa : f a (ahead₁ ++ w₁.arrived s) = .outside := by
          rw [bind_eq, Reader.bind, hra] at hdone
          rw [← hmid]
          exact hdone
        obtain ⟨w₂, hy₂, helse₂, hqueue, hend⟩ := (hy a).outside hready hfa
        rw [List.append_assoc, ← hmid, ← hsplit] at hqueue
        exact ⟨w₂, (bind_of_complete hx₁).trans hy₂, helse.trans helse₂, hqueue, hend⟩
    | refused =>
        rw [bind_eq, Reader.bind, hra] at hdone
        cases hdone
    | outside =>
        obtain ⟨w₁, hx₁, hend⟩ := hx.outside h.first hra
        exact ⟨w₁, bind_of_interrupted hx₁, hend⟩
  refused := by
    intro w used ahead data h hdone
    cases hra : r (ahead ++ w.arrived s) with
    | done a mid =>
        obtain ⟨w₁, taken, ahead₁, hx₁, helse, htaken, hreading, hsplit, hmid, hfirst⟩ :=
          hx.done h.first hra
        have hready := h.next hr hra hreading htaken hmid hfirst
        have hfa : f a (ahead₁ ++ w₁.arrived s) = .refused := by
          rw [bind_eq, Reader.bind, hra] at hdone
          rw [← hmid]
          exact hdone
        obtain ⟨w₂, used₂, ahead₂, hy₂, helse₂, hreading₂⟩ := (hy a).refused hready hfa
        exact ⟨w₂, used₂, ahead₂, (bind_of_complete hx₁).trans hy₂, helse.trans helse₂, hreading₂⟩
    | refused =>
        obtain ⟨w₁, used₁, ahead₁, hx₁, hend⟩ := hx.refused h.first hra
        exact ⟨w₁, used₁, ahead₁, bind_of_socketError hx₁, hend⟩
    | outside =>
        rw [bind_eq, Reader.bind, hra] at hdone
        cases hdone

@[simp] theorem setQueue_queues (w : Net) (q : Option SocketQueue) :
    (w.setQueue s q).queues s = q := Function.update_self ..

@[simp] theorem setArrived_arrived (w : Net) (l : List UInt8) :
    (w.setArrived s l).arrived s = l := Function.update_self ..

theorem elsewhere_setQueue (w : Net) (q : Option SocketQueue) : Elsewhere s w (w.setQueue s q) :=
  fun _ ht => ⟨Function.update_of_ne ht .., rfl⟩

theorem elsewhere_setArrived (w : Net) (l : List UInt8) : Elsewhere s w (w.setArrived s l) :=
  fun _ ht => ⟨rfl, Function.update_of_ne ht ..⟩

theorem elsewhere_interrupted (w : Net) (l : List UInt8) :
    Elsewhere s w (socketBufferInterrupted s l w) := by
  intro t ht
  unfold socketBufferInterrupted
  split
  · exact elsewhere_setQueue w _ t ht
  · exact ⟨Function.update_of_ne ht .., rfl⟩

theorem elsewhere_queueChar (w : Net) (c : UInt8) :
    Elsewhere s w (socketBufferQueueChar s c w) := by
  intro t ht
  unfold socketBufferQueueChar
  split
  · split
    · exact ⟨rfl, rfl⟩
    · exact elsewhere_setQueue w _ t ht
  · split
    · exact ⟨rfl, rfl⟩
    · split <;> exact ⟨rfl, rfl⟩

@[simp] theorem queueChar_arrived (w : Net) (c : UInt8) :
    (socketBufferQueueChar s c w).arrived = w.arrived := by
  unfold socketBufferQueueChar
  split
  · split <;> rfl
  · split
    · rfl
    · split <;> rfl

theorem MidPacket.setArrived (h : MidPacket w s used ahead data) (l : List UInt8) :
    MidPacket (w.setArrived s l) s used ahead data := by
  cases h with
  | queued hqueue hdef => exact .queued hqueue hdef
  | fresh hqueue hahead hdata hdef => exact .fresh hqueue hahead hdata hdef

theorem MidPacket.interrupted (h : MidPacket w s used [] data) (l : List UInt8) :
    let w' := socketBufferInterrupted s l w
    w'.queues s = some ⟨some s, 0, used, l⟩ ∧ w'.arrived = w.arrived ∧ w'.defQueue = .empty := by
  cases h with
  | queued hqueue hdef =>
      rw [List.append_nil] at hqueue
      simp only [socketBufferInterrupted, hqueue]
      exact ⟨setQueue_queues w _, rfl, hdef⟩
  | fresh hqueue hahead hdata hdef =>
      simp only [socketBufferInterrupted, hqueue, and_true]
      rw [Function.update_self, hdef]
      split
      · rename_i hused
        rw [hused]
        rfl
      · rfl

theorem MidPacket.queueChar (h : MidPacket w s used [] data) (hroom : used.length ≤ 4)
    (c : UInt8) : MidPacket (socketBufferQueueChar s c w) s (used ++ [c]) [] data := by
  cases h with
  | queued hqueue hdef =>
      apply MidPacket.queued
      · simp only [socketBufferQueueChar, hqueue, if_neg (Nat.not_lt.mpr hroom)]
        rw [setQueue_queues]
        simp [SocketQueue.append]
      · simp only [socketBufferQueueChar, hqueue, if_neg (Nat.not_lt.mpr hroom)]
        exact hdef
  | fresh hqueue hahead hdata hdef =>
      by_cases hused : used = []
      · rw [if_pos hused] at hdef
        apply MidPacket.fresh _ rfl hdata
        · simp [socketBufferQueueChar, hqueue, hdef, hused, SocketQueue.empty, SocketQueue.append]
        · simp only [socketBufferQueueChar, hqueue, hdef, SocketQueue.empty]
      · rw [if_neg hused] at hdef
        apply MidPacket.fresh _ rfl hdata
        · simp [socketBufferQueueChar, hqueue, hdef, Nat.not_lt.mpr hroom, SocketQueue.append]
        · simp [socketBufferQueueChar, hqueue, hdef, Nat.not_lt.mpr hroom]

theorem MidPacket.getQueuedChar_nil (h : MidPacket w s used [] data) (hroom : used.length ≤ 4) :
    socketBufferGetQueuedChar s w = (w, .interrupted) := by
  cases h with
  | queued hqueue hdef =>
      unfold socketBufferGetQueuedChar
      rw [hqueue]
      simp [Nat.not_lt.mpr hroom]
  | fresh hqueue hahead hdata hdef =>
      unfold socketBufferGetQueuedChar
      rw [hqueue]

theorem MidPacket.getQueuedChar_cons {c : UInt8} (h : MidPacket w s used (c :: ahead) data) :
    ∃ w', socketBufferGetQueuedChar s w = (w', .complete c) ∧ Elsewhere s w w' ∧
      w'.arrived = w.arrived ∧ MidPacket w' s (used ++ [c]) ahead data := by
  cases h with
  | queued hqueue hdef =>
      refine ⟨w.setQueue s (some ⟨some s, used.length + 1, used ++ c :: ahead, data⟩), ?_,
        elsewhere_setQueue w _, rfl, ?_⟩
      · unfold socketBufferGetQueuedChar
        rw [hqueue]
        simp
      · apply MidPacket.queued
        · simp
        · exact hdef
  | fresh hqueue hahead hdata hdef => exact nomatch hahead

theorem simulates_getch (s : ℕ) : Simulates s 1 (socketGetch s) item where
  done := by
    intro w used ahead data c rest h hdone
    have hroom : used.length ≤ 4 := Nat.le_of_succ_le_succ h.room
    have hitem := item_done_iff.mp hdone
    cases ahead with
    | nil =>
        rw [List.nil_append] at hitem
        refine ⟨socketBufferQueueChar s c (w.setArrived s rest), [c], [], ?_,
          (elsewhere_setArrived w rest).trans (elsewhere_queueChar _ c), Nat.le_refl 1, ?_, hitem,
          ?_, [c], ?_, .inl rfl⟩
        · simp only [socketGetch, h.reading.getQueuedChar_nil hroom, hitem]
        · exact (h.reading.setArrived rest).queueChar hroom c
        · rw [queueChar_arrived, setArrived_arrived, List.nil_append]
        · rw [queueChar_arrived, setArrived_arrived, hitem, List.singleton_append]
    | cons d ahead =>
        rw [List.cons_append] at hitem
        injection hitem with hd hrest
        subst hd
        obtain ⟨w', hget, helse, harrived, hreading⟩ := h.reading.getQueuedChar_cons
        refine ⟨w', [d], ahead, ?_, helse, Nat.le_refl 1, hreading, ?_, ?_, [], ?_, .inr rfl⟩
        · simp only [socketGetch, hget]
        · rw [← hrest, List.cons_append, List.singleton_append]
        · rw [harrived, hrest]
        · rw [harrived, List.nil_append]
  outside := by
    intro w used ahead data h hdone
    have hroom : used.length ≤ 4 := Nat.le_of_succ_le_succ h.room
    have hnil : ahead ++ w.arrived s = [] := by
      cases hl : ahead ++ w.arrived s with
      | nil => rfl
      | cons c l =>
          rw [hl] at hdone
          cases hdone
    obtain ⟨rfl, harrived⟩ := List.append_eq_nil_iff.mp hnil
    obtain ⟨hqueue, hsame, hdef⟩ := h.reading.interrupted []
    refine ⟨socketBufferInterrupted s [] w, ?_, elsewhere_interrupted w [], ?_, ?_, hdef⟩
    · simp only [socketGetch, h.reading.getQueuedChar_nil hroom, harrived]
    · rw [hqueue, harrived, List.append_nil, List.append_nil]
    · rw [hsame, harrived]
  refused := by
    intro w used ahead data h hdone
    exact absurd hdone (by cases ahead ++ w.arrived s <;> exact nofun)

end Simulation

theorem simulates_decodeLoop (s k multiplier value : ℕ) :
    Simulates s k (decodeLoop (socketGetch s) socketError k multiplier value)
      (decodeLoop item refuse k multiplier value) := by
  induction k generalizing multiplier value with
  | zero => exact simulates_error
  | succ k ih =>
      apply Simulates.mono (j := 1 + k) _ (Nat.le_of_eq (Nat.add_comm 1 k))
      apply (simulates_getch s).bind steady_item
      intro c
      dsimp only
      split
      · exact ih _ _
      · exact (simulates_pure _).mono (Nat.zero_le k)

theorem simulates_header (s : ℕ) :
    Simulates s 5 (packetHeader (socketGetch s) socketError) (packetHeader item refuse) :=
  (simulates_getch s).bind steady_item fun _ =>
    (simulates_decodeLoop s 4 1 0).bind (steady_decodeLoop 4 1 0) fun _ => simulates_pure _

/-! ## A packet read from a socket -/

/-- What is kept of a packet between two calls: part of its header, or the header and part of
the rest. -/
structure Kept (s : ℕ) (q : SocketQueue) : Prop where
  socket_eq : q.socket = some s
  index_eq : q.index = 0
  unfinished : (q.data = [] ∧ packetHeader item refuse q.fixedHeader = .outside) ∨
    ∃ header n, packetHeader item refuse q.fixedHeader = .done (header, n) [] ∧
      q.data.length < n

structure Idle (w : Net) : Prop where
  defQueue_eq : w.defQueue = .empty
  kept : ∀ s q, w.queues s = some q → Kept s q

def SocketQueue.bytes (q : SocketQueue) : List UInt8 := q.fixedHeader ++ q.data

def pending (w : Net) (s : ℕ) : List UInt8 :=
  (match w.queues s with
    | some q => q.bytes
    | none => []) ++ w.arrived s

section Packet

variable {s : ℕ} {w w' : Net} {used data : List UInt8}

theorem Idle.ready (h : Idle w) (s : ℕ) : ∃ ahead data,
    Ready (packetHeader item refuse) 5 s w [] ahead data ∧
      pending w s = ahead ++ data ++ w.arrived s ∧
      ((data = [] ∧ packetHeader item refuse ahead = .outside) ∨
        ∃ header n, packetHeader item refuse ahead = .done (header, n) [] ∧ data.length < n) := by
  cases hq : w.queues s with
  | none =>
      refine ⟨[], [], ⟨.fresh hq rfl rfl h.defQueue_eq, Nat.le_refl 5, fun hne => absurd rfl hne⟩,
        ?_, .inl ⟨rfl, rfl⟩⟩
      simp only [pending, hq, List.append_nil]
  | some q =>
      obtain ⟨hsocket, hindex, hunfinished⟩ := h.kept s q hq
      have hqueue : w.queues s = some ⟨some s, 0, q.fixedHeader, q.data⟩ := by
        rw [hq, ← hsocket, ← hindex]
      refine ⟨q.fixedHeader, q.data, ⟨.queued hqueue h.defQueue_eq, Nat.le_refl 5, ?_⟩, ?_,
        hunfinished⟩
      · intro hne
        rcases hunfinished with ⟨hnil, -⟩ | ⟨header, n, hdone, -⟩
        · exact absurd hnil hne
        · exact ⟨_, _, hdone⟩
      · simp only [pending, hq, SocketQueue.bytes]

theorem MidPacket.queuedData (h : MidPacket w s used [] data) : w.queuedData s = data := by
  cases h with
  | queued hqueue hdef => simp only [Net.queuedData, hqueue]
  | fresh hqueue hahead hdata hdef => simp only [Net.queuedData, hqueue, hdata]

theorem Idle.of_elsewhere (h : Idle w) (helse : Elsewhere s w w') (hdef : w'.defQueue = .empty)
    (hkept : ∀ q, w'.queues s = some q → Kept s q) : Idle w' where
  defQueue_eq := hdef
  kept := by
    intro t q hq
    by_cases ht : t = s
    · subst ht
      exact hkept q hq
    · rw [(helse t ht).1] at hq
      exact h.kept t q hq

theorem elsewhere_complete (w : Net) : Elsewhere s w (socketBufferComplete s w) :=
  fun _ ht => ⟨Function.update_of_ne ht .., rfl⟩

@[simp] theorem complete_queues (w : Net) : (socketBufferComplete s w).queues s = none :=
  Function.update_self ..

@[simp] theorem cleanup_queues (w : Net) : (socketBufferCleanup s w).queues s = none :=
  Function.update_self ..

theorem elsewhere_cleanup (w : Net) : Elsewhere s w (socketBufferCleanup s w) :=
  fun _ ht => ⟨Function.update_of_ne ht .., rfl⟩

theorem getdata_spec (hw : Idle w) (helse : Elsewhere s w w')
    (hreading : MidPacket w' s used [] data) {header : UInt8} {n : ℕ}
    (hheader : packetHeader item refuse used = .done (header, n) [])
    (hdata : data.length < n ∨ data = []) :
    match items n (data ++ w'.arrived s) with
    | .done taken rest => ∃ w'', socketGetdata s n w' = (w'', .complete taken) ∧ Idle w'' ∧
        Elsewhere s w w'' ∧ pending w'' s = rest
    | .refused => False
    | .outside => ∃ w'', socketGetdata s n w' = (w'', .interrupted) ∧ Idle w'' ∧
        Elsewhere s w w'' ∧ pending w'' s = used ++ (data ++ w'.arrived s) := by
  have hcomplete : ∀ w₁ : Net, Elsewhere s w' w₁ → Idle (socketBufferComplete s w₁) ∧
      Elsewhere s w (socketBufferComplete s w₁) ∧
      pending (socketBufferComplete s w₁) s = w₁.arrived s := by
    intro w₁ h₁
    have hall := (helse.trans h₁).trans (elsewhere_complete w₁)
    refine ⟨hw.of_elsewhere hall rfl ?_, hall, ?_⟩
    · intro q hq
      rw [complete_queues] at hq
      exact nomatch hq
    · simp only [pending, complete_queues, List.nil_append]
      rfl
  by_cases hn : n = 0
  · have hnil : data = [] := by
      rcases hdata with hlt | hnil
      · omega
      · exact hnil
    obtain ⟨hidle, hall, hpending⟩ := hcomplete w' (Elsewhere.refl s w')
    rw [hn, hnil]
    exact ⟨_, rfl, hidle, hall, hpending⟩
  · have hlt : data.length < n := by
      rcases hdata with hlt | hnil
      · exact hlt
      · rw [hnil]
        exact Nat.pos_of_ne_zero hn
    have hqueued := hreading.queuedData
    by_cases hroom : n ≤ (data ++ w'.arrived s).length
    · have hlen : (data ++ w'.arrived s).length = data.length + (w'.arrived s).length :=
        List.length_append
      have htake : (data ++ w'.arrived s).take n =
          data ++ (w'.arrived s).take (n - data.length) := by
        rw [List.take_append, List.take_of_length_le hlt.le]
      have hdrop : (data ++ w'.arrived s).drop n = (w'.arrived s).drop (n - data.length) := by
        rw [List.drop_append, List.drop_of_length_le hlt.le, List.nil_append]
      have hfull : (data ++ (w'.arrived s).take (n - data.length)).length = n := by
        rw [← htake, List.length_take]
        omega
      obtain ⟨hidle, hall, hpending⟩ := hcomplete _
        (elsewhere_setArrived w' ((w'.arrived s).drop (n - data.length)))
      rw [items, if_pos hroom, htake, hdrop]
      refine ⟨_, ?_, hidle, hall, hpending.trans (setArrived_arrived _ _)⟩
      simp only [socketGetdata, if_neg hn, hqueued, hfull, if_true]
    · have hshort := hroom
      rw [List.length_append] at hshort
      have htake : (w'.arrived s).take (n - data.length) = w'.arrived s :=
        List.take_of_length_le (by omega)
      have hdrop : (w'.arrived s).drop (n - data.length) = [] := List.drop_of_length_le (by omega)
      have hpartial : (data ++ w'.arrived s).length ≠ n := by
        rw [List.length_append]
        omega
      obtain ⟨hqueue, hsame, hdef⟩ :=
        (hreading.setArrived []).interrupted (data ++ w'.arrived s)
      have hall : Elsewhere s w
          (socketBufferInterrupted s (data ++ w'.arrived s) (w'.setArrived s [])) :=
        (helse.trans (elsewhere_setArrived w' [])).trans (elsewhere_interrupted _ _)
      rw [items, if_neg hroom]
      refine ⟨_, ?_, hw.of_elsewhere hall hdef ?_, hall, ?_⟩
      · simp only [socketGetdata, if_neg hn, hqueued, htake, hdrop, if_neg hpartial]
      · intro q hq
        obtain rfl := Option.some.inj (hqueue.symm.trans hq)
        exact ⟨rfl, rfl, .inr ⟨header, n, hheader, by rw [List.length_append]; omega⟩⟩
      · simp only [pending, hqueue, hsame, SocketQueue.bytes, setArrived_arrived, List.append_nil]

theorem MidPacket.cleanup {ahead : List UInt8} (h : MidPacket w s used ahead data) :
    (socketBufferCleanup s w).defQueue = .empty := by
  cases h with
  | queued hqueue hdef =>
      simp only [socketBufferCleanup, hdef]
      split <;> rfl
  | fresh hqueue hahead hdata hdef =>
      simp only [socketBufferCleanup, hdef]
      by_cases hused : used = []
      · simp only [hused, if_true]
        split <;> rfl
      · simp only [if_neg hused, if_true]

/-- **A call of `MQTTPacket_Factory`** reads from what was kept and what has arrived since as
from one stream; it hands a packet on, keeps everything, or reports an error. -/
theorem factory_spec (hw : Idle w) (s : ℕ) :
    match readPacket (pending w s) with
    | .done p rest => ∃ w', mqttPacketFactory s w = (w', .complete p) ∧ Idle w' ∧
        Elsewhere s w w' ∧ pending w' s = rest
    | .outside => ∃ w', mqttPacketFactory s w = (w', .interrupted) ∧ Idle w' ∧
        Elsewhere s w w' ∧ pending w' s = pending w s
    | .refused => ∃ w', mqttPacketFactory s w = (w', .socketError) ∧
        Idle (socketBufferCleanup s w') ∧ Elsewhere s w w' := by
  obtain ⟨ahead, data, hready, hpending, hunfinished⟩ := hw.ready s
  have hbegun : data ≠ [] → ∃ header n, packetHeader item refuse (ahead ++ w.arrived s) =
      .done (header, n) (w.arrived s) := by
    intro hne
    rcases hunfinished with ⟨hnil, -⟩ | ⟨header, n, hdone, -⟩
    · exact absurd hnil hne
    · exact ⟨header, n, steady_header.done ahead _ [] _ hdone⟩
  cases hheader : packetHeader item refuse (ahead ++ w.arrived s) with
  | outside =>
      have hnil : data = [] := by
        by_contra hne
        obtain ⟨header, n, hdone⟩ := hbegun hne
        cases hheader.symm.trans hdone
      rw [hnil, List.append_nil] at hpending
      have hread : readPacket (pending w s) = .outside := by
        rw [hpending, readPacket, bind_eq, Reader.bind, hheader]
      obtain ⟨w', hrun, helse, hqueue, harrived, hdef⟩ :=
        (simulates_header s).outside hready hheader
      rw [hread]
      refine ⟨w', bind_of_interrupted hrun, hw.of_elsewhere helse hdef ?_, helse, ?_⟩
      · intro q hq
        obtain rfl := Option.some.inj (hqueue.symm.trans hq)
        exact ⟨rfl, rfl, .inl ⟨rfl, hheader⟩⟩
      · rw [hpending]
        simp only [pending, hqueue, harrived, SocketQueue.bytes, List.nil_append, List.append_nil]
  | refused =>
      have hnil : data = [] := by
        by_contra hne
        obtain ⟨header, n, hdone⟩ := hbegun hne
        cases hheader.symm.trans hdone
      rw [hnil, List.append_nil] at hpending
      have hread : readPacket (pending w s) = .refused := by
        rw [hpending, readPacket, bind_eq, Reader.bind, hheader]
      obtain ⟨w', used', ahead', hrun, helse, hreading⟩ :=
        (simulates_header s).refused hready hheader
      rw [hread]
      refine ⟨w', bind_of_socketError hrun, ?_, helse⟩
      apply hw.of_elsewhere (helse.trans (elsewhere_cleanup w')) hreading.cleanup
      intro q hq
      rw [cleanup_queues] at hq
      cases hq
  | done hn rest =>
      obtain ⟨header, n⟩ := hn
      obtain ⟨w₁, taken, ahead₁, hrun, helse, -, hreading, hsplit, hrest, read, harrived, hempty⟩ :=
        (simulates_header s).done hready hheader
      -- nothing is left of the header
      have hahead : ahead₁ = [] := by
        rcases hempty with hnil | hnil
        · exact hnil
        · rw [hnil, List.nil_append] at harrived
          rcases hunfinished with ⟨-, hout⟩ | ⟨header', n', hdone, -⟩
          · have hlt := steady_header.outside ahead _ _ rest hout hheader
            rw [hrest, harrived, List.length_append] at hlt
            omega
          · have heq := steady_header.done ahead _ [] (w.arrived s) hdone
            rw [hheader] at heq
            injection heq with _ heq
            rw [hrest, harrived, List.nil_append] at heq
            exact List.append_left_eq_self.mp heq
      rw [hahead, List.nil_append] at hrest
      rw [hahead, List.nil_append] at hreading
      have htaken : packetHeader item refuse taken = .done (header, n) [] := by
        apply steady_header.exact
        rw [← hsplit]
        exact hheader
      have hkept : pending w s = taken ++ (data ++ w₁.arrived s) ∧
          (data.length < n ∨ data = []) := by
        rcases hunfinished with ⟨hnil, -⟩ | ⟨header', n', hdone, hlt⟩
        · rw [hpending, hnil, List.append_nil, hsplit, hrest]
          exact ⟨rfl, .inr rfl⟩
        · have heq := steady_header.done ahead _ [] (w.arrived s) hdone
          rw [hheader] at heq
          injection heq with hpair heq
          rw [List.nil_append] at heq
          rw [heq] at hsplit
          rw [hpending, List.append_cancel_right hsplit, ← hrest, heq, List.append_assoc]
          obtain ⟨-, rfl⟩ := Prod.mk.inj hpair
          exact ⟨rfl, .inl hlt⟩
      have hread : readPacket (pending w s) =
          (items n >>= fun taken => pure (header, taken)) (data ++ w₁.arrived s) := by
        rw [hkept.1, readPacket, bind_eq, Reader.bind,
          steady_header.done taken _ [] _ htaken]
        rfl
      have hgetdata := getdata_spec hw helse hreading htaken hkept.2
      rw [hread, bind_eq, Reader.bind]
      cases hitems : items n (data ++ w₁.arrived s) with
      | done body later =>
          rw [hitems] at hgetdata
          obtain ⟨w₂, hdata, hidle, helse₂, hpending₂⟩ := hgetdata
          refine ⟨w₂, ?_, hidle, helse₂, hpending₂⟩
          exact (bind_of_complete hrun).trans (bind_of_complete hdata)
      | outside =>
          rw [hitems] at hgetdata
          obtain ⟨w₂, hdata, hidle, helse₂, hpending₂⟩ := hgetdata
          exact ⟨w₂, (bind_of_complete hrun).trans (bind_of_interrupted hdata), hidle, helse₂,
            hpending₂.trans hkept.1.symm⟩
      | refused =>
          rw [hitems] at hgetdata
          exact hgetdata.elim

end Packet

/-! ## Runs -/

/-- What a socket has received since it was opened, and the packets handed on for it. -/
structure System where
  net : Net
  stream : ℕ → List UInt8
  packets : ℕ → List (UInt8 × List UInt8)

def System.init : System where
  net := { queues := fun _ => none, defQueue := .empty, arrived := fun _ => [] }
  stream := fun _ => []
  packets := fun _ => []

inductive SocketEvent
  | deliver (s : ℕ) (chunk : List UInt8)
  | receive (s : ℕ)
  | close (s : ℕ)

def closeSocket (s : ℕ) (y : System) : System where
  net := (socketBufferCleanup s y.net).setArrived s []
  stream := Function.update y.stream s []
  packets := Function.update y.packets s []

/-- A socket that reports an error is closed. -/
def socketStep (y : System) : SocketEvent → System
  | .deliver s chunk =>
      { y with
        net := y.net.setArrived s (y.net.arrived s ++ chunk)
        stream := Function.update y.stream s (y.stream s ++ chunk) }
  | .receive s =>
      match mqttPacketFactory s y.net with
      | (w, .complete p) =>
          { y with net := w, packets := Function.update y.packets s (y.packets s ++ [p]) }
      | (w, .interrupted) => { y with net := w }
      | (w, .socketError) => closeSocket s { y with net := w }
  | .close s => closeSocket s y

structure InStep (y : System) : Prop where
  idle : Idle y.net
  readsOff : ∀ s, ReadsOff readPacket (y.stream s) (y.packets s) (pending y.net s)

theorem inStep_init : InStep .init where
  idle := ⟨rfl, fun _ _ hq => nomatch hq⟩
  readsOff := fun _ => .nil

section Step

variable {s : ℕ} {y : System} {w : Net}

theorem Elsewhere.pending {w' : Net} (h : Elsewhere s w w') {t : ℕ} (ht : t ≠ s) :
    pending w' t = pending w t := by
  unfold Mqtt.pending
  rw [(h t ht).1, (h t ht).2]

theorem InStep.closeSocket (h : InStep y) (hidle : Idle (socketBufferCleanup s w))
    (helse : Elsewhere s y.net w) : InStep (closeSocket s { y with net := w }) where
  idle := ⟨hidle.defQueue_eq, hidle.kept⟩
  readsOff := by
    intro t
    by_cases ht : t = s
    · subst ht
      simp only [Mqtt.closeSocket, Function.update_self, Mqtt.pending, setArrived_arrived]
      have hnone : ((socketBufferCleanup t w).setArrived t []).queues t = none := cleanup_queues w
      rw [hnone]
      exact .nil
    · have hall : Elsewhere s y.net ((socketBufferCleanup s w).setArrived s []) :=
        (helse.trans (elsewhere_cleanup w)).trans (elsewhere_setArrived _ [])
      simp only [Mqtt.closeSocket, Function.update_of_ne ht, hall.pending ht]
      exact h.readsOff t

theorem Idle.cleanup (h : Idle w) (s : ℕ) : Idle (socketBufferCleanup s w) := by
  apply h.of_elsewhere (elsewhere_cleanup w)
  · simp only [socketBufferCleanup, h.defQueue_eq]
    split <;> rfl
  · intro q hq
    rw [cleanup_queues] at hq
    exact nomatch hq

theorem InStep.receive (h : InStep y) (s : ℕ) : InStep (socketStep y (.receive s)) := by
  have hspec := factory_spec h.idle s
  cases hread : readPacket (pending y.net s) with
  | done p rest =>
      rw [hread] at hspec
      obtain ⟨w, hrun, hidle, helse, hpending⟩ := hspec
      simp only [socketStep, hrun]
      refine ⟨hidle, ?_⟩
      intro t
      by_cases ht : t = s
      · subst ht
        simp only [Function.update_self, hpending]
        exact .snoc (h.readsOff t) hread
      · simp only [Function.update_of_ne ht, helse.pending ht]
        exact h.readsOff t
  | outside =>
      rw [hread] at hspec
      obtain ⟨w, hrun, hidle, helse, hpending⟩ := hspec
      simp only [socketStep, hrun]
      refine ⟨hidle, ?_⟩
      intro t
      by_cases ht : t = s
      · subst ht
        rw [hpending]
        exact h.readsOff t
      · rw [helse.pending ht]
        exact h.readsOff t
  | refused =>
      rw [hread] at hspec
      obtain ⟨w, hrun, hidle, helse⟩ := hspec
      simp only [socketStep, hrun]
      exact h.closeSocket hidle helse

theorem InStep.deliver (h : InStep y) (s : ℕ) (chunk : List UInt8) :
    InStep (socketStep y (.deliver s chunk)) where
  idle := ⟨h.idle.defQueue_eq, h.idle.kept⟩
  readsOff := by
    intro t
    by_cases ht : t = s
    · subst ht
      have hpending : pending (y.net.setArrived t (y.net.arrived t ++ chunk)) t =
          pending y.net t ++ chunk := by
        rw [pending, pending, setArrived_arrived, List.append_assoc]
        rfl
      simp only [socketStep, Function.update_self, hpending]
      exact (h.readsOff t).append steady_readPacket chunk
    · simp only [socketStep, Function.update_of_ne ht, (elsewhere_setArrived _ _).pending ht]
      exact h.readsOff t

theorem InStep.step (h : InStep y) (event : SocketEvent) : InStep (socketStep y event) := by
  cases event with
  | deliver s chunk => exact h.deliver s chunk
  | receive s => exact h.receive s
  | close s => exact h.closeSocket (h.idle.cleanup s) (Elsewhere.refl s y.net)

end Step

theorem inStep_run (events : List SocketEvent) : InStep (run socketStep .init events) :=
  run_invariant inStep_init (fun _ event h => h.step event) events

/-- **Packets arrive once and in order.**  If a socket has received the beginning of what a
sender wrote, the packets handed on for it are the first that were sent, and the bytes kept
and not yet received are exactly the others; however the stream was cut, and whatever other
sockets have received in between. -/
theorem packets_arrive_once (events : List SocketEvent) (s : ℕ)
    (sent : List (UInt8 × List UInt8)) (later : List UInt8) (hshort : ∀ p ∈ sent, Short p)
    (hsent : (run socketStep .init events).stream s ++ later = wire sent) :
    ∃ others, sent = (run socketStep .init events).packets s ++ others ∧
      pending (run socketStep .init events).net s ++ later = wire others := by
  have hread := ((inStep_run events).readsOff s).append steady_readPacket later
  rw [hsent] at hread
  have hall : ReadsOff readPacket (wire (sent ++ [])) sent [] := readsOff_wire hshort
  rw [List.append_nil] at hall
  have hend : ∀ p m, readPacket [] ≠ .done p m := fun _ _ h => nomatch h
  obtain ⟨others, hothers⟩ := hread.isPrefix hall (hall.length_le hend hread)
  refine ⟨others, hothers.symm, ?_⟩
  have hrest : ReadsOff readPacket (wire sent) ((run socketStep .init events).packets s)
      (wire others) := by
    rw [← hothers] at hshort ⊢
    exact readsOff_wire fun p hp => hshort p (List.mem_append_left others hp)
  exact (hread.eq_of_length hrest rfl).2

/-- **How a stream is cut does not matter.**  If two sockets, of one run or of two, have
received the same bytes and neither has a packet left to hand on, the same packets have been
handed on for both. -/
theorem cuts_do_not_matter (events events' : List SocketEvent) (s s' : ℕ)
    (hstream : (run socketStep .init events).stream s = (run socketStep .init events').stream s')
    (hidle : ∀ p rest, readPacket (pending (run socketStep .init events).net s) ≠ .done p rest)
    (hidle' : ∀ p rest,
      readPacket (pending (run socketStep .init events').net s') ≠ .done p rest) :
    (run socketStep .init events).packets s = (run socketStep .init events').packets s' ∧
      pending (run socketStep .init events).net s =
        pending (run socketStep .init events').net s' := by
  have hread := (inStep_run events).readsOff s
  rw [hstream] at hread
  exact hread.unique hidle ((inStep_run events').readsOff s') hidle'

def twoSockets : List SocketEvent :=
  [.deliver 5 [144, 3], .receive 5, .deliver 6 [208], .receive 6, .deliver 5 [0], .receive 5,
    .deliver 6 [0], .receive 6, .deliver 5 [1, 0], .receive 5]

def suback : UInt8 × List UInt8 := (144, [0, 1, 0])

theorem wire_suback : wire [suback] = [144, 3, 0, 1, 0] := by
  simp only [wire, suback, List.flatMap_cons, List.flatMap_nil, mqttPacketSends,
    List.length_cons, List.length_nil, encode_small (n := 0 + 1 + 1 + 1) (by decide)]
  rfl

theorem packets_arrive_once_twoSockets :
    ((∀ p ∈ [suback], Short p) ∧
        (run socketStep .init twoSockets).stream 5 ++ [] = wire [suback]) ∧
      ∃ others, [suback] = (run socketStep .init twoSockets).packets 5 ++ others ∧
        pending (run socketStep .init twoSockets).net 5 ++ [] = wire others := by
  have hshort : ∀ p ∈ [suback], Short p := by
    intro p hp
    rw [List.mem_singleton.mp hp]
    unfold Short
    decide
  have hsent : (run socketStep .init twoSockets).stream 5 ++ [] = wire [suback] := by
    rw [wire_suback]
    rfl
  exact ⟨⟨hshort, hsent⟩, packets_arrive_once twoSockets 5 [suback] [] hshort hsent⟩

def oneSocket : List SocketEvent := [.deliver 4 [144, 3, 0, 1, 0], .receive 4]

theorem cuts_do_not_matter_suback :
    (run socketStep .init twoSockets).stream 5 = (run socketStep .init oneSocket).stream 4 ∧
      (run socketStep .init twoSockets).packets 5 = (run socketStep .init oneSocket).packets 4 ∧
        pending (run socketStep .init twoSockets).net 5 =
          pending (run socketStep .init oneSocket).net 4 := by
  have hstream : (run socketStep .init twoSockets).stream 5 =
      (run socketStep .init oneSocket).stream 4 := by rfl
  have hpending : pending (run socketStep .init twoSockets).net 5 = [] := by rfl
  have hpending' : pending (run socketStep .init oneSocket).net 4 = [] := by rfl
  refine ⟨hstream, cuts_do_not_matter twoSockets oneSocket 5 4 hstream ?_ ?_⟩
  · rw [hpending]
    exact fun _ _ h => nomatch h
  · rw [hpending']
    exact fun _ _ h => nomatch h

end CatDect.Mqtt
