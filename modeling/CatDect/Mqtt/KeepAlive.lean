import CatDect.Support.Interleaving
import Mathlib.Logic.Function.Basic

/-!
# Pings

A client promises to send something in every keepalive interval, and `MQTTProtocol_keepalive`
sends a PINGREQ when nothing else was sent, or received.  `MQTTAsync_retry` calls it once in
`retryLoopIntervalms`, from a loop that has other things to do as well.  As long as no write is
pending, a server that falls silent is noticed and a server that answers need not wait for a
ping.  A ping that could not be sent may put an end to all that.
-/

namespace CatDect.Mqtt

open CatDect.Support

/-! ## The code -/

/-- Between two times in microseconds, in milliseconds. -/
def mqttTimeDifftime (tNew tOld : ℤ) : ℤ := (tNew - tOld) / 1000

structure PingClient where
  connected : Bool
  keepAliveInterval : ℤ
  pingOutstanding : Bool
  pingDue : Bool
  pingDueTime : ℤ
  lastSent : ℤ
  lastReceived : ℤ
  lastPing : ℤ

/-- `MQTTProtocol_closeSession`; both ways of `nextOrClose` go through `MQTTAsync_closeOnly`. -/
def PingClient.closeSession (c : PingClient) : PingClient :=
  { c with connected := false, pingOutstanding := false, pingDue := false }

/-- What a call finds: whether the socket has no pending writes, and after which time a PINGREQ
is out; `none` if `MQTTPacket_send_pingreq` does not return `TCPSOCKET_COMPLETE`. -/
structure PingCall where
  noPendingWrites : Bool
  sentAfter : Option ℕ

def sendPing (now : ℤ) (call : PingCall) (c : PingClient) : PingClient :=
  match call.sentAfter with
  | none => c.closeSession
  | some d =>
      { c with lastSent := now + d, pingDue := false, lastPing := now, pingOutstanding := true }

/-- The loop of `MQTTProtocol_keepalive`, for one client. -/
def mqttProtocolKeepalive (now : ℤ) (call : PingCall) (c : PingClient) : PingClient :=
  if c.connected = false ∨ c.keepAliveInterval = 0 then c
  else if c.pingOutstanding then
    if c.keepAliveInterval * 1500 ≤ mqttTimeDifftime now c.lastPing ∧
        c.keepAliveInterval * 1500 ≤ mqttTimeDifftime now c.lastReceived then c.closeSession
    else c
  else if c.pingDue ∧ c.keepAliveInterval * 1500 ≤ mqttTimeDifftime now c.pingDueTime then
    if mqttTimeDifftime now c.pingDueTime ≤ mqttTimeDifftime now c.lastReceived then
      c.closeSession
    else c
  else if c.keepAliveInterval * 1000 ≤ mqttTimeDifftime now c.lastSent then
    if call.noPendingWrites then sendPing now call c
    else if !c.pingDue then { c with pingDue := true, pingDueTime := now }
    else c
  else if c.keepAliveInterval * 1000 ≤ mqttTimeDifftime now c.lastReceived then
    if call.noPendingWrites then sendPing now call c else c
  else c

def setRetryLoopInterval (keepalive : ℤ) : ℤ :=
  let retryLoopIntervalms := keepalive * 1000 / 10
  if retryLoopIntervalms < 100 then 100
  else if retryLoopIntervalms > 5000 then 5000
  else retryLoopIntervalms

/-- `last` is the variable of `MQTTAsync_retry`.  `lastCall` and `lastKeepalive` are its last
call and the last one in which it called `MQTTProtocol_keepalive`; no code reads them. -/
structure PingState (ι : Type) where
  clock : ℤ
  retryLoopIntervalms : ℤ
  last : ℤ
  clients : ι → PingClient
  lastCall : ℤ
  lastKeepalive : ℤ

section Steps

variable {ι : Type}

def mqttAsyncRetry (pause : ℕ) (calls : ι → PingCall) (y : PingState ι) : PingState ι :=
  let now := y.clock
  if y.retryLoopIntervalms ≤ mqttTimeDifftime now y.last then
    { y with
      clock := now + pause
      last := now + pause
      clients := fun i => mqttProtocolKeepalive now (calls i) (y.clients i)
      lastCall := now
      lastKeepalive := now }
  else { y with lastCall := now }

/-- `sent` is a packet that has left, or a part of one that has gone on; `received` stands for
what `MQTTPacket_Factory` reads, and `connack` for the CONNACK with what
`MQTTAsync_completeConnection` does. -/
inductive PingEvent (ι : Type)
  | wait (d : ℕ)
  | connack (i : ι)
  | sent (i : ι)
  | received (i : ι) (pingresp : Bool)
  | close (i : ι)
  | retry (pause : ℕ) (calls : ι → PingCall)

variable [DecidableEq ι]

def PingState.change (y : PingState ι) (i : ι) (f : PingClient → PingClient) : PingState ι :=
  { y with clients := Function.update y.clients i (f (y.clients i)) }

def pingStep (y : PingState ι) : PingEvent ι → PingState ι
  | .wait d => { y with clock := y.clock + d }
  | .connack i => y.change i fun c => { c with connected := true, lastReceived := y.clock }
  | .sent i => y.change i fun c => { c with lastSent := y.clock }
  | .received i pingresp => y.change i fun c =>
      { c with
        lastReceived := y.clock
        pingOutstanding := c.pingOutstanding && !pingresp }
  | .close i => y.change i PingClient.closeSession
  | .retry pause calls => mqttAsyncRetry pause calls y

end Steps

def PingState.init {ι : Type} (start : ℕ) (keepAliveInterval : ι → ℤ) (keepalive : ℤ) :
    PingState ι where
  clock := start
  retryLoopIntervalms := setRetryLoopInterval keepalive
  last := 0
  clients := fun i => ⟨false, keepAliveInterval i, false, false, 0, 0, 0, 0⟩
  lastCall := start
  lastKeepalive := start

/-! ## When the pings are looked after -/

section Calls

variable {ι : Type} {y : PingState ι} {limit : ℕ}

structure InTime (limit : ℕ) (y : PingState ι) : Prop where
  interval_le : y.retryLoopIntervalms ≤ 5000
  keepalive_le : y.lastKeepalive ≤ y.lastCall
  call_le : y.lastCall ≤ y.clock
  clock_le : y.clock ≤ y.lastCall + limit
  last_le : y.last ≤ y.lastKeepalive + limit
  skipped : y.lastCall = y.lastKeepalive ∨ y.lastCall < y.last + y.retryLoopIntervalms * 1000

theorem setRetryLoopInterval_le (keepalive : ℤ) : setRetryLoopInterval keepalive ≤ 5000 := by
  unfold setRetryLoopInterval
  grind

theorem inTime_init (start : ℕ) (keepAliveInterval : ι → ℤ) (keepalive : ℤ) :
    InTime limit (PingState.init start keepAliveInterval keepalive) where
  interval_le := setRetryLoopInterval_le keepalive
  keepalive_le := Int.le_refl _
  call_le := Int.le_refl _
  clock_le := by
    unfold PingState.init
    dsimp only
    omega
  last_le := by
    unfold PingState.init
    dsimp only
    omega
  skipped := .inl rfl

theorem InTime.clock_le_keepalive (h : InTime limit y) :
    y.clock ≤ y.lastKeepalive + (5000000 + 2 * limit) := by
  have hinterval := h.interval_le
  have hclock := h.clock_le
  have hlast := h.last_le
  rcases h.skipped with hcall | hcall
  · omega
  · omega

theorem difftime_le_iff (tNew tOld ms : ℤ) :
    ms ≤ mqttTimeDifftime tNew tOld ↔ tOld + ms * 1000 ≤ tNew := by
  unfold mqttTimeDifftime
  omega

variable [DecidableEq ι]

/-- After the step it is not longer than `limit` since the last call of `MQTTAsync_retry`. -/
def Attended (limit : ℕ) (y : PingState ι) (event : PingEvent ι) : Prop :=
  (pingStep y event).clock ≤ (pingStep y event).lastCall + limit

theorem InTime.change (h : InTime limit y) (i : ι) (f : PingClient → PingClient) :
    InTime limit (y.change i f) :=
  ⟨h.interval_le, h.keepalive_le, h.call_le, h.clock_le, h.last_le, h.skipped⟩

theorem InTime.step (h : InTime limit y) {event : PingEvent ι}
    (hattended : Attended limit y event) : InTime limit (pingStep y event) := by
  cases event with
  | wait d =>
      have hcall := h.call_le
      refine ⟨h.interval_le, h.keepalive_le, ?_, hattended, h.last_le, h.skipped⟩
      simp only [pingStep]
      omega
  | connack i =>
      simp only [pingStep]
      exact h.change i _
  | sent i =>
      simp only [pingStep]
      exact h.change i _
  | received i pingresp =>
      simp only [pingStep]
      exact h.change i _
  | close i =>
      simp only [pingStep]
      exact h.change i _
  | retry pause calls =>
      have hkeepalive := h.keepalive_le
      have hcall := h.call_le
      unfold Attended at hattended
      simp only [pingStep, mqttAsyncRetry, difftime_le_iff] at hattended ⊢
      split at hattended
      · rename_i hdue
        rw [if_pos hdue]
        refine ⟨h.interval_le, Int.le_refl _, ?_, hattended, hattended, .inl rfl⟩
        dsimp only
        omega
      · rename_i hdue
        rw [if_neg hdue]
        refine ⟨h.interval_le, ?_, Int.le_refl _, hattended, h.last_le, .inr ?_⟩
        · dsimp only
          omega
        · dsimp only
          omega

end Calls

/-! ## What a step does to a client -/

section Clients

variable {now : ℤ} {call : PingCall} {c : PingClient}

inductive Pinged (now : ℤ) (c : PingClient) : PingClient → Prop
  | sent (d : ℕ) : Pinged now c
      { c with lastSent := now + d, pingDue := false, lastPing := now, pingOutstanding := true }
  | failed : Pinged now c c.closeSession

theorem pinged_sendPing (now : ℤ) (call : PingCall) (c : PingClient) :
    Pinged now c (sendPing now call c) := by
  unfold sendPing
  cases call.sentAfter with
  | none => exact .failed
  | some d => exact .sent d

inductive LookedAfter (now : ℤ) (c : PingClient) : PingClient → Prop
  | offline (hconnected : c.connected = false) : LookedAfter now c c
  | waits (houtstanding : c.pingOutstanding = true)
      (hwait : now < c.lastPing + c.keepAliveInterval * 1500000 ∨
        now < c.lastReceived + c.keepAliveInterval * 1500000) : LookedAfter now c c
  | gives (houtstanding : c.pingOutstanding = true) : LookedAfter now c c.closeSession
  | pings {c' : PingClient} (houtstanding : c.pingOutstanding = false) (hping : Pinged now c c') :
      LookedAfter now c c'
  | rests (houtstanding : c.pingOutstanding = false)
      (hsent : now < c.lastSent + c.keepAliveInterval * 1000000)
      (hreceived : now < c.lastReceived + c.keepAliveInterval * 1000000) : LookedAfter now c c

theorem lookedAfter_keepalive (hinterval : 0 < c.keepAliveInterval)
    (hdue : c.pingDue = false) (hfree : call.noPendingWrites = true) :
    LookedAfter now c (mqttProtocolKeepalive now call c) := by
  unfold mqttProtocolKeepalive
  rw [hfree]
  simp only [hdue, difftime_le_iff, if_true, Bool.false_eq_true, false_and, if_false]
  by_cases hconnected : c.connected = false
  · rw [if_pos (Or.inl hconnected)]
    exact .offline hconnected
  · have honline : ¬(c.connected = false ∨ c.keepAliveInterval = 0) := by
      rintro (h | h)
      · exact hconnected h
      · omega
    rw [if_neg honline]
    cases houtstanding : c.pingOutstanding with
    | true =>
        rw [if_pos rfl]
        split
        · exact .gives houtstanding
        · apply LookedAfter.waits houtstanding
          omega
    | false =>
        rw [if_neg (by decide)]
        split
        · exact .pings houtstanding (pinged_sendPing now call c)
        · split
          · exact .pings houtstanding (pinged_sendPing now call c)
          · apply LookedAfter.rests houtstanding
            · omega
            · omega

end Clients

section Change

variable {ι : Type} [DecidableEq ι] {y : PingState ι} {i j : ι}

theorem change_clients_self (y : PingState ι) (i : ι) (f : PingClient → PingClient) :
    (y.change i f).clients i = f (y.clients i) :=
  Function.update_self i _ y.clients

theorem change_clients_of_ne (h : i ≠ j) (f : PingClient → PingClient) :
    (y.change j f).clients i = y.clients i :=
  Function.update_of_ne h _ y.clients

theorem change_keeps {P : PingClient → Prop} (h : P (y.clients i)) (j : ι)
    (f : PingClient → PingClient) (hself : i = j → P (f (y.clients i))) :
    P ((y.change j f).clients i) := by
  by_cases hj : i = j
  · rw [← hj, change_clients_self]
    exact hself hj
  · rw [change_clients_of_ne hj]
    exact h

/-- What a step means for one client: `Q` is about the clock, the last time the client was looked
after, and the client. -/
theorem step_client {Q : ℤ → ℤ → PingClient → Prop} {event : PingEvent ι}
    (h : Q y.clock y.lastKeepalive (y.clients i))
    (hwait : ∀ clock t c, y.clock ≤ clock → Q y.clock t c → Q clock t c)
    (hconnack : event = .connack i →
      Q y.clock y.lastKeepalive { y.clients i with connected := true, lastReceived := y.clock })
    (hsent : event = .sent i →
      Q y.clock y.lastKeepalive { y.clients i with lastSent := y.clock })
    (hreceived : ∀ pingresp, event = .received i pingresp →
      Q y.clock y.lastKeepalive { y.clients i with
        lastReceived := y.clock
        pingOutstanding := (y.clients i).pingOutstanding && !pingresp })
    (hclose : event = .close i → Q y.clock y.lastKeepalive (y.clients i).closeSession)
    (hretry : ∀ pause calls, event = .retry pause calls →
      Q y.clock y.clock (mqttProtocolKeepalive y.clock (calls i) (y.clients i))) :
    Q (pingStep y event).clock (pingStep y event).lastKeepalive
      ((pingStep y event).clients i) := by
  have hother := change_keeps (P := Q y.clock y.lastKeepalive) h
  cases event with
  | wait d =>
      apply hwait _ _ _ _ h
      simp only [pingStep]
      omega
  | connack j =>
      simp only [pingStep]
      refine hother j _ ?_
      rintro rfl
      exact hconnack rfl
  | sent j =>
      simp only [pingStep]
      refine hother j _ ?_
      rintro rfl
      exact hsent rfl
  | received j pingresp =>
      simp only [pingStep]
      refine hother j _ ?_
      rintro rfl
      exact hreceived pingresp rfl
  | close j =>
      simp only [pingStep]
      refine hother j _ ?_
      rintro rfl
      exact hclose rfl
  | retry pause calls =>
      simp only [pingStep, mqttAsyncRetry]
      split
      · apply hwait _ _ _ _ (hretry pause calls rfl)
        dsimp only
        omega
      · exact h

def PingEvent.Unblocked (i : ι) : PingEvent ι → Prop
  | .retry _ calls => (calls i).noPendingWrites = true
  | _ => True

end Change

/-! ## A silent server -/

/-- How long ago the client was heard, by the last time it was looked after. -/
structure Watched (limit : ℕ) (k clock lastKeepalive : ℤ) (c : PingClient) : Prop where
  interval_eq : c.keepAliveInterval = k
  notDue : c.pingDue = false
  received_le : c.lastReceived ≤ clock
  ping_le : c.pingOutstanding = true → c.lastPing ≤ clock
  idle : c.connected = true → c.pingOutstanding = false →
    lastKeepalive < c.lastReceived + k * 1000000
  pinged : c.connected = true → c.pingOutstanding = true →
    c.lastPing < c.lastReceived + k * 1000000 + (5000000 + 2 * limit)
  waits : c.connected = true → c.pingOutstanding = true →
    lastKeepalive < c.lastPing + k * 1500000 ∨ lastKeepalive < c.lastReceived + k * 1500000

section Watched

variable {limit : ℕ} {k clock lastKeepalive : ℤ} {c c' : PingClient}

theorem Watched.wait (h : Watched limit k clock lastKeepalive c) {clock' : ℤ}
    (hclock : clock ≤ clock') : Watched limit k clock' lastKeepalive c :=
  ⟨h.interval_eq, h.notDue, Int.le_trans h.received_le hclock,
    fun hout => Int.le_trans (h.ping_le hout) hclock, h.idle, h.pinged, h.waits⟩

theorem Watched.close (h : Watched limit k clock lastKeepalive c) :
    Watched limit k clock lastKeepalive c.closeSession :=
  ⟨h.interval_eq, rfl, h.received_le, (fun hout => nomatch hout), (fun hcon => nomatch hcon),
    (fun hcon => nomatch hcon), fun hcon => nomatch hcon⟩

theorem Watched.sent (h : Watched limit k clock lastKeepalive c) (t : ℤ) :
    Watched limit k clock lastKeepalive { c with lastSent := t } :=
  ⟨h.interval_eq, h.notDue, h.received_le, h.ping_le, h.idle, h.pinged, h.waits⟩

theorem Watched.received (h : Watched limit k clock lastKeepalive c) (hk : 0 < k)
    (hle : lastKeepalive ≤ clock) (connected outstanding : Bool)
    (hout : outstanding = true → c.pingOutstanding = true) :
    Watched limit k clock lastKeepalive
      { c with connected := connected, lastReceived := clock, pingOutstanding := outstanding } where
  interval_eq := h.interval_eq
  notDue := h.notDue
  received_le := Int.le_refl _
  ping_le := fun houtstanding => h.ping_le (hout houtstanding)
  idle := by
    intro _ _
    dsimp only
    omega
  pinged := by
    intro _ houtstanding
    have hping := h.ping_le (hout houtstanding)
    dsimp only
    omega
  waits := by
    intro _ _
    right
    dsimp only
    omega

theorem Watched.keepalive (h : Watched limit k clock lastKeepalive c) (hk : 0 < k)
    (hsoon : clock ≤ lastKeepalive + (5000000 + 2 * limit))
    (hlook : LookedAfter clock c c') : Watched limit k clock clock c' := by
  have hinterval := h.interval_eq
  cases hlook with
  | offline hconnected =>
      refine ⟨h.interval_eq, h.notDue, h.received_le, h.ping_le, ?_, h.pinged, ?_⟩
      · intro hcon
        rw [hconnected] at hcon
        exact nomatch hcon
      · intro hcon
        rw [hconnected] at hcon
        exact nomatch hcon
  | waits houtstanding hwait =>
      refine ⟨h.interval_eq, h.notDue, h.received_le, h.ping_le, ?_, h.pinged, ?_⟩
      · intro _ hout
        rw [houtstanding] at hout
        exact nomatch hout
      · intro _ _
        rw [hinterval] at hwait
        exact hwait
  | gives _ =>
      exact ⟨h.interval_eq, rfl, h.received_le, (fun hout => nomatch hout),
        (fun hcon => nomatch hcon), (fun hcon => nomatch hcon), fun hcon => nomatch hcon⟩
  | pings houtstanding hping =>
      cases hping with
      | failed =>
          exact ⟨h.interval_eq, rfl, h.received_le, (fun hout => nomatch hout),
            (fun hcon => nomatch hcon), (fun hcon => nomatch hcon), fun hcon => nomatch hcon⟩
      | sent d =>
          refine ⟨h.interval_eq, rfl, h.received_le, ?_, ?_, ?_, ?_⟩
          · intro _
            exact Int.le_refl _
          · intro _ hout
            exact nomatch hout
          · intro hcon _
            have hidle := h.idle hcon houtstanding
            dsimp only
            omega
          · intro _ _
            left
            dsimp only
            omega
  | rests houtstanding _ hreceived =>
      refine ⟨h.interval_eq, h.notDue, h.received_le, h.ping_le, ?_, h.pinged, ?_⟩
      · intro _ _
        rw [hinterval] at hreceived
        exact hreceived
      · intro _ hout
        rw [houtstanding] at hout
        exact nomatch hout

theorem Watched.clock_le (h : Watched limit k clock lastKeepalive c) (hk : 0 < k)
    (hsoon : clock ≤ lastKeepalive + (5000000 + 2 * limit)) (hconnected : c.connected = true) :
    clock < c.lastReceived + k * 2500000 + 2 * (5000000 + 2 * limit) := by
  cases houtstanding : c.pingOutstanding with
  | false =>
      have hidle := h.idle hconnected houtstanding
      omega
  | true =>
      have hpinged := h.pinged hconnected houtstanding
      have hwaits := h.waits hconnected houtstanding
      omega

end Watched

section Silence

variable {ι : Type} [DecidableEq ι] {y : PingState ι} {i : ι} {limit : ℕ} {k : ℤ}

def PingState.Watched (limit : ℕ) (k : ℤ) (i : ι) (y : PingState ι) : Prop :=
  Mqtt.Watched limit k y.clock y.lastKeepalive (y.clients i)

theorem PingState.Watched.step (h : y.Watched limit k i) (hk : 0 < k) (htime : InTime limit y)
    {event : PingEvent ι} (hfree : event.Unblocked i) :
    (pingStep y event).Watched limit k i := by
  have hinterval := h.interval_eq
  have hle : y.lastKeepalive ≤ y.clock := Int.le_trans htime.keepalive_le htime.call_le
  apply step_client (Q := Mqtt.Watched limit k) h
  · intro _ _ _ hclock hc
    exact hc.wait hclock
  · intro _
    exact Mqtt.Watched.received h hk hle true _ id
  · intro _
    exact Mqtt.Watched.sent h y.clock
  · intro pingresp _
    apply Mqtt.Watched.received h hk hle
    intro hout
    exact (Bool.and_eq_true_iff.mp hout).1
  · intro _
    exact Mqtt.Watched.close h
  · rintro pause calls rfl
    have hlook : LookedAfter y.clock (y.clients i)
        (mqttProtocolKeepalive y.clock (calls i) (y.clients i)) :=
      lookedAfter_keepalive (by omega) h.notDue hfree
    exact Mqtt.Watched.keepalive h hk htime.clock_le_keepalive hlook

omit [DecidableEq ι] in
theorem watched_init (start : ℕ) (keepAliveInterval : ι → ℤ) (keepalive : ℤ) :
    (PingState.init start keepAliveInterval keepalive).Watched limit (keepAliveInterval i) i where
  interval_eq := rfl
  notDue := rfl
  received_le := Int.natCast_nonneg start
  ping_le := fun hout => nomatch hout
  idle := fun hcon => nomatch hcon
  pinged := fun hcon => nomatch hcon
  waits := fun hcon => nomatch hcon

/-- **A silent server is noticed.**  If `MQTTAsync_retry` is called in every `limit`
microseconds and finds no pending writes on the socket of a client, the client is not connected
any more two and a half keepalive intervals, ten seconds and four times the limit after it was
last heard from. -/
theorem silent_server_noticed (start : ℕ) (keepAliveInterval : ι → ℤ) (keepalive : ℤ) (limit : ℕ)
    (i : ι) (hpositive : 0 < keepAliveInterval i) (events : List (PingEvent ι))
    (hrun : Along pingStep (.init start keepAliveInterval keepalive)
      (fun y event => Attended limit y event ∧ event.Unblocked i) events) :
    let y := run pingStep (.init start keepAliveInterval keepalive) events
    (y.clients i).connected = true →
      y.clock < (y.clients i).lastReceived + keepAliveInterval i * 2500000 +
        2 * (5000000 + 2 * limit) := by
  have hinvariant := throughout_of_along
    (I := fun y => InTime limit y ∧ y.Watched limit (keepAliveInterval i) i)
    ⟨inTime_init start keepAliveInterval keepalive,
      watched_init start keepAliveInterval keepalive⟩
    (fun y event h hstep => ⟨h.1.step hstep.1, h.2.step hpositive h.1 hstep.2⟩) hrun
  obtain ⟨htime, hwatched⟩ := hinvariant events (List.prefix_refl events)
  exact Mqtt.Watched.clock_le hwatched hpositive htime.clock_le_keepalive

end Silence

/-! ## A server that answers -/

/-- How long ago something was sent, by the last time the client was looked after. -/
structure Punctual (k clock lastKeepalive : ℤ) (c : PingClient) : Prop where
  interval_eq : c.keepAliveInterval = k
  notDue : c.pingDue = false
  ping_le : c.pingOutstanding = true → c.lastPing ≤ clock ∧ c.lastPing ≤ c.lastSent
  kept : c.connected = true → lastKeepalive ≤ c.lastSent + k * 1000000

def Answered (clock : ℤ) (c : PingClient) : Prop :=
  c.connected = true → c.pingOutstanding = true →
    clock ≤ c.lastPing + c.keepAliveInterval * 1000000

section Punctual

variable {k clock lastKeepalive : ℤ} {c c' : PingClient}

theorem Punctual.wait (h : Punctual k clock lastKeepalive c) {clock' : ℤ}
    (hclock : clock ≤ clock') : Punctual k clock' lastKeepalive c :=
  ⟨h.interval_eq, h.notDue,
    fun hout => ⟨Int.le_trans (h.ping_le hout).1 hclock, (h.ping_le hout).2⟩, h.kept⟩

theorem Punctual.close (h : Punctual k clock lastKeepalive c) :
    Punctual k clock lastKeepalive c.closeSession :=
  ⟨h.interval_eq, rfl, (fun hout => nomatch hout), fun hcon => nomatch hcon⟩

theorem Punctual.sent (h : Punctual k clock lastKeepalive c) (hk : 0 < k)
    (hle : lastKeepalive ≤ clock) :
    Punctual k clock lastKeepalive { c with lastSent := clock } where
  interval_eq := h.interval_eq
  notDue := h.notDue
  ping_le := fun hout => ⟨(h.ping_le hout).1, (h.ping_le hout).1⟩
  kept := by
    intro _
    dsimp only
    omega

theorem Punctual.received (h : Punctual k clock lastKeepalive c) (outstanding : Bool)
    (hout : outstanding = true → c.pingOutstanding = true) :
    Punctual k clock lastKeepalive
      { c with lastReceived := clock, pingOutstanding := outstanding } :=
  ⟨h.interval_eq, h.notDue, fun houtstanding => h.ping_le (hout houtstanding), h.kept⟩

theorem Punctual.connack (h : Punctual k clock lastKeepalive c) (hle : lastKeepalive ≤ clock)
    (hsent : clock ≤ c.lastSent + k * 1000000) :
    Punctual k clock lastKeepalive { c with connected := true, lastReceived := clock } where
  interval_eq := h.interval_eq
  notDue := h.notDue
  ping_le := h.ping_le
  kept := by
    intro _
    dsimp only
    omega

theorem Punctual.keepalive (h : Punctual k clock lastKeepalive c) (hk : 0 < k)
    (hanswered : Answered clock c) (hlook : LookedAfter clock c c') :
    Punctual k clock clock c' := by
  have hinterval := h.interval_eq
  cases hlook with
  | offline hconnected =>
      refine ⟨h.interval_eq, h.notDue, h.ping_le, ?_⟩
      intro hcon
      rw [hconnected] at hcon
      exact nomatch hcon
  | waits houtstanding _ =>
      refine ⟨h.interval_eq, h.notDue, h.ping_le, ?_⟩
      intro hcon
      have hanswer := hanswered hcon houtstanding
      have hping := (h.ping_le houtstanding).2
      rw [hinterval] at hanswer
      omega
  | gives _ =>
      exact ⟨h.interval_eq, rfl, (fun hout => nomatch hout), fun hcon => nomatch hcon⟩
  | pings _ hping =>
      cases hping with
      | failed =>
          exact ⟨h.interval_eq, rfl, (fun hout => nomatch hout), fun hcon => nomatch hcon⟩
      | sent d =>
          refine ⟨h.interval_eq, rfl, ?_, ?_⟩
          · intro _
            dsimp only
            omega
          · intro _
            dsimp only
            omega
  | rests _ hsent _ =>
      refine ⟨h.interval_eq, h.notDue, h.ping_le, ?_⟩
      intro _
      rw [hinterval] at hsent
      omega

theorem Punctual.clock_le (h : Punctual k clock lastKeepalive c) {limit : ℕ}
    (hsoon : clock ≤ lastKeepalive + (5000000 + 2 * limit)) (hconnected : c.connected = true) :
    clock ≤ c.lastSent + k * 1000000 + (5000000 + 2 * limit) := by
  have hkept := h.kept hconnected
  omega

end Punctual

section Answers

variable {ι : Type} [DecidableEq ι] {y : PingState ι} {i : ι} {limit : ℕ} {k : ℤ}

def Answers (i : ι) (y : PingState ι) (event : PingEvent ι) : Prop :=
  Answered (pingStep y event).clock ((pingStep y event).clients i) ∧
    (event = .connack i →
      y.clock ≤ (y.clients i).lastSent + (y.clients i).keepAliveInterval * 1000000)

def PingState.Punctual (k : ℤ) (i : ι) (y : PingState ι) : Prop :=
  Mqtt.Punctual k y.clock y.lastKeepalive (y.clients i) ∧ Answered y.clock (y.clients i)

theorem PingState.Punctual.step (h : y.Punctual k i) (hk : 0 < k) (htime : InTime limit y)
    {event : PingEvent ι} (hfree : event.Unblocked i) (hanswers : Answers i y event) :
    (pingStep y event).Punctual k i := by
  refine ⟨?_, hanswers.1⟩
  obtain ⟨h, hanswered⟩ := h
  have hinterval := h.interval_eq
  have hle : y.lastKeepalive ≤ y.clock := Int.le_trans htime.keepalive_le htime.call_le
  apply step_client (Q := Mqtt.Punctual k) h
  · intro _ _ _ hclock hc
    exact hc.wait hclock
  · rintro rfl
    have hsent := hanswers.2 rfl
    rw [hinterval] at hsent
    exact h.connack hle hsent
  · intro _
    exact h.sent hk hle
  · intro pingresp _
    apply h.received
    intro hout
    exact (Bool.and_eq_true_iff.mp hout).1
  · intro _
    exact h.close
  · rintro pause calls rfl
    have hlook : LookedAfter y.clock (y.clients i)
        (mqttProtocolKeepalive y.clock (calls i) (y.clients i)) :=
      lookedAfter_keepalive (by omega) h.notDue hfree
    exact h.keepalive hk hanswered hlook

omit [DecidableEq ι] in
theorem punctual_init (start : ℕ) (keepAliveInterval : ι → ℤ) (keepalive : ℤ) :
    (PingState.init start keepAliveInterval keepalive).Punctual (keepAliveInterval i) i :=
  ⟨⟨rfl, rfl, (fun hout => nomatch hout), fun hcon => nomatch hcon⟩, fun hcon => nomatch hcon⟩

/-- **The server does not wait for a ping.**  If besides it answers within the keepalive
interval, something was sent to it at most one keepalive interval, five seconds and twice the
limit ago, whenever a client is connected. -/
theorem pings_in_time (start : ℕ) (keepAliveInterval : ι → ℤ) (keepalive : ℤ) (limit : ℕ)
    (i : ι) (hpositive : 0 < keepAliveInterval i) (events : List (PingEvent ι))
    (hrun : Along pingStep (.init start keepAliveInterval keepalive)
      (fun y event => Attended limit y event ∧ event.Unblocked i ∧ Answers i y event) events) :
    let y := run pingStep (.init start keepAliveInterval keepalive) events
    (y.clients i).connected = true →
      y.clock ≤ (y.clients i).lastSent + keepAliveInterval i * 1000000 +
        (5000000 + 2 * limit) := by
  have hinvariant := throughout_of_along
    (I := fun y => InTime limit y ∧ y.Punctual (keepAliveInterval i) i)
    ⟨inTime_init start keepAliveInterval keepalive,
      punctual_init start keepAliveInterval keepalive⟩
    (fun y event h hstep => ⟨h.1.step hstep.1, h.2.step hpositive h.1 hstep.2.1 hstep.2.2⟩) hrun
  obtain ⟨htime, hpunctual, _⟩ := hinvariant events (List.prefix_refl events)
  exact hpunctual.clock_le htime.clock_le_keepalive

end Answers

def oneSecond : PingState Unit := .init 10000000 (fun _ => 1) 1

def pingAnswered : List (PingEvent Unit) :=
  [.sent (), .connack (), .wait 1000000, .retry 0 fun _ => ⟨true, some 0⟩, .wait 500000,
    .received () true]

theorem along_pingAnswered :
    Along pingStep oneSecond
      (fun y event => Attended 1000000 y event ∧ event.Unblocked () ∧ Answers () y event)
      pingAnswered := by
  unfold pingAnswered
  simp only [along_cons]
  refine ⟨⟨?_, trivial, ?_⟩, ⟨?_, trivial, ?_⟩, ⟨?_, trivial, ?_⟩, ⟨?_, rfl, ?_⟩,
    ⟨?_, trivial, ?_⟩, ⟨?_, trivial, ?_⟩, along_nil⟩
  all_goals first
    | (unfold Attended; decide)
    | exact ⟨by unfold Answered; decide, fun _ => by decide⟩
    | exact ⟨by unfold Answered; decide, fun h => nomatch h⟩

theorem silent_server_noticed_pingAnswered :
    (Along pingStep oneSecond (fun y event => Attended 1000000 y event ∧ event.Unblocked ())
        pingAnswered ∧
      ((run pingStep oneSecond pingAnswered).clients ()).connected = true) ∧
      (run pingStep oneSecond pingAnswered).clock <
        ((run pingStep oneSecond pingAnswered).clients ()).lastReceived + 1 * 2500000 +
          2 * (5000000 + 2 * 1000000) := by
  have hrun : Along pingStep oneSecond
      (fun y event => Attended 1000000 y event ∧ event.Unblocked ()) pingAnswered := by
    intro start event hstart
    obtain ⟨hattended, hfree, _⟩ := along_pingAnswered start event hstart
    exact ⟨hattended, hfree⟩
  exact ⟨⟨hrun, rfl⟩, silent_server_noticed 10000000 (fun _ => 1) 1 1000000 () (by decide)
    pingAnswered hrun rfl⟩

theorem pings_in_time_pingAnswered :
    (Along pingStep oneSecond
        (fun y event => Attended 1000000 y event ∧ event.Unblocked () ∧ Answers () y event)
        pingAnswered ∧
      ((run pingStep oneSecond pingAnswered).clients ()).connected = true) ∧
      (run pingStep oneSecond pingAnswered).clock ≤
        ((run pingStep oneSecond pingAnswered).clients ()).lastSent + 1 * 1000000 +
          (5000000 + 2 * 1000000) :=
  ⟨⟨along_pingAnswered, rfl⟩, pings_in_time 10000000 (fun _ => 1) 1 1000000 () (by decide)
    pingAnswered along_pingAnswered rfl⟩

/-! ## A ping that is due for ever -/

/-- A ping could not be sent an interval and a half ago or longer, and something has been received
since. -/
structure Forgotten (clock : ℤ) (c : PingClient) : Prop where
  connected : c.connected = true
  interval_pos : 0 < c.keepAliveInterval
  notOutstanding : c.pingOutstanding = false
  due : c.pingDue = true
  long_ago : c.pingDueTime + c.keepAliveInterval * 1500000 ≤ clock
  heard : c.pingDueTime + 1000 ≤ c.lastReceived

theorem Forgotten.keepalive {now : ℤ} {c : PingClient} (h : Forgotten now c) (call : PingCall) :
    mqttProtocolKeepalive now call c = c := by
  have honline : ¬(c.connected = false ∨ c.keepAliveInterval = 0) := by
    have hinterval := h.interval_pos
    simp only [h.connected, Bool.true_eq_false, false_or]
    omega
  have hlong : c.keepAliveInterval * 1500 ≤ mqttTimeDifftime now c.pingDueTime := by
    have hago := h.long_ago
    rw [difftime_le_iff]
    omega
  -- the session is not closed either, as the server has been heard since
  have hheard : ¬ mqttTimeDifftime now c.pingDueTime ≤ mqttTimeDifftime now c.lastReceived := by
    have hsince := h.heard
    unfold mqttTimeDifftime
    omega
  unfold mqttProtocolKeepalive
  rw [if_neg honline, h.notOutstanding, if_neg (by decide), if_pos ⟨h.due, hlong⟩, if_neg hheard]

section Forgotten

variable {ι : Type} [DecidableEq ι] {y : PingState ι} {i : ι}

def StillForgotten (clock : ℤ) (c c' : PingClient) : Prop :=
  Forgotten clock c' ∧ c'.lastPing = c.lastPing

theorem Forgotten.received {clock : ℤ} {c : PingClient} (h : Forgotten clock c)
    (connected outstanding : Bool) (hcon : connected = true) (hout : outstanding = false) :
    StillForgotten clock c
      { c with connected := connected, lastReceived := clock, pingOutstanding := outstanding } := by
  refine ⟨⟨hcon, h.interval_pos, hout, h.due, h.long_ago, ?_⟩, rfl⟩
  have hago := h.long_ago
  have hpositive := h.interval_pos
  dsimp only
  omega

theorem Forgotten.wait {clock clock' : ℤ} {c : PingClient} (h : Forgotten clock c)
    (hclock : clock ≤ clock') : Forgotten clock' c :=
  ⟨h.connected, h.interval_pos, h.notOutstanding, h.due, Int.le_trans h.long_ago hclock, h.heard⟩

theorem Forgotten.sent {clock : ℤ} {c : PingClient} (h : Forgotten clock c) (t : ℤ) :
    Forgotten clock { c with lastSent := t } :=
  ⟨h.connected, h.interval_pos, h.notOutstanding, h.due, h.long_ago, h.heard⟩

theorem Forgotten.step (h : Forgotten y.clock (y.clients i)) {event : PingEvent ι}
    (hopen : event ≠ .close i) :
    StillForgotten (pingStep y event).clock (y.clients i) ((pingStep y event).clients i) := by
  have hsame : StillForgotten y.clock (y.clients i) (y.clients i) := ⟨h, rfl⟩
  apply step_client (Q := fun clock _ => StillForgotten clock (y.clients i)) hsame
  · intro _ _ _ hclock hc
    exact ⟨hc.1.wait hclock, hc.2⟩
  · intro _
    exact h.received true _ rfl h.notOutstanding
  · intro _
    exact ⟨h.sent y.clock, rfl⟩
  · intro pingresp _
    apply h.received _ _ h.connected
    rw [h.notOutstanding, Bool.false_and]
  · intro hclose
    exact absurd hclose hopen
  · intro pause calls _
    rw [h.keepalive]
    exact hsame

theorem Forgotten.lastSent (h : Forgotten y.clock (y.clients i)) {event : PingEvent ι}
    (hopen : event ≠ .close i) (hquiet : event ≠ .sent i) :
    ((pingStep y event).clients i).lastSent = (y.clients i).lastSent := by
  apply step_client (Q := fun _ _ c => c.lastSent = (y.clients i).lastSent) rfl
  · exact fun _ _ _ _ hc => hc
  · exact fun _ => rfl
  · exact fun hsent => absurd hsent hquiet
  · exact fun _ _ => rfl
  · exact fun hclose => absurd hclose hopen
  · intro pause calls _
    rw [h.keepalive]

/-- **A ping that is due for ever.**  If a PINGREQ could not be sent at once, something is
received later and an interval and a half passes without a ping, the client is looked after no
more: for any time after that, and whatever happens except that the session is closed elsewhere,
it stays connected and no PINGREQ is sent, even if nothing else is sent or received. -/
theorem ping_due_for_ever (h : Forgotten y.clock (y.clients i)) (events : List (PingEvent ι))
    (hopen : ∀ event ∈ events, event ≠ .close i) :
    ((run pingStep y events).clients i).connected = true ∧
      ((run pingStep y events).clients i).lastPing = (y.clients i).lastPing ∧
      ((∀ event ∈ events, event ≠ .sent i) →
        ((run pingStep y events).clients i).lastSent = (y.clients i).lastSent) := by
  induction events generalizing y with
  | nil => exact ⟨h.connected, rfl, fun _ => rfl⟩
  | cons event events ih =>
      have hfirst := hopen event List.mem_cons_self
      obtain ⟨hstep, hping⟩ := h.step hfirst
      obtain ⟨hconnected, hpings, hsent⟩ :=
        ih hstep fun e he => hopen e (List.mem_cons_of_mem event he)
      refine ⟨hconnected, hpings.trans hping, ?_⟩
      intro hquiet
      calc
        ((run pingStep y (event :: events)).clients i).lastSent =
            ((pingStep y event).clients i).lastSent :=
          hsent fun e he => hquiet e (List.mem_cons_of_mem event he)
        _ = (y.clients i).lastSent := h.lastSent hfirst (hquiet event List.mem_cons_self)

end Forgotten

def oneClient : PingState Unit := .init 0 (fun _ => 100) 100

/-- A write has been pending for 101 s when the client is looked after; it completes a second
later, and the client and the server go on talking. -/
def longWrite : List (PingEvent Unit) :=
  [.connack (), .wait 101000000, .retry 0 fun _ => ⟨false, none⟩, .wait 1000000, .sent (),
    .received () false, .wait 80000000, .sent (), .received () false, .wait 80000000]

theorem forgotten_longWrite :
    Forgotten (run pingStep oneClient longWrite).clock
      ((run pingStep oneClient longWrite).clients ()) := by
  constructor
  · rfl
  · decide
  · rfl
  · rfl
  · decide
  · decide

def silentHour : List (PingEvent Unit) :=
  [.wait 3600000000, .retry 0 fun _ => ⟨true, some 0⟩]

theorem ping_due_for_ever_silentHour :
    (Forgotten (run pingStep oneClient longWrite).clock
        ((run pingStep oneClient longWrite).clients ()) ∧
      ∀ event ∈ silentHour, event ≠ .close ()) ∧
      ((run pingStep (run pingStep oneClient longWrite) silentHour).clients ()).connected =
          true ∧
        ((run pingStep (run pingStep oneClient longWrite) silentHour).clients ()).lastPing =
          ((run pingStep oneClient longWrite).clients ()).lastPing ∧
        ((∀ event ∈ silentHour, event ≠ .sent ()) →
          ((run pingStep (run pingStep oneClient longWrite) silentHour).clients ()).lastSent =
            ((run pingStep oneClient longWrite).clients ()).lastSent) := by
  have hopen : ∀ event ∈ silentHour, event ≠ .close () := by
    intro event hevent
    simp only [silentHour, List.mem_cons, List.not_mem_nil, or_false] at hevent
    rcases hevent with rfl | rfl
    · exact fun h => nomatch h
    · exact fun h => nomatch h
  exact ⟨⟨forgotten_longWrite, hopen⟩, ping_due_for_ever forgotten_longWrite silentHour hopen⟩

end CatDect.Mqtt
