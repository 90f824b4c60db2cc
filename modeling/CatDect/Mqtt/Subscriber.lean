import CatDect.Mqtt.CommandOrder

/-!
# The subscription over reconnections

`mqttsub_init` subscribes in the callback of its CONNECT, and leaves reconnecting to the
library.  The library clears the callback once it has been used, and reconnects with a copy
of the command that it keeps.  A step is one of the library's own, under its lock; the
results say in which sessions a subscribe is requested.
-/

namespace CatDect.Mqtt

open CatDect.Support

/-! ## The code -/

structure ConnectCallbacks where
  onSuccess5 : Bool
  onFailure5 : Bool
deriving DecidableEq

def ConnectCallbacks.cleared : ConnectCallbacks := ⟨false, false⟩

inductive ConnectState
  | notInProgress
  | waitForConnack
deriving DecidableEq

/-- The client: `connect` is the command that the library keeps, `queued` the CONNECT at the
head of its queue, and `requested` what was subscribed to in the current session. -/
structure Client where
  connectState : ConnectState
  connected : Bool
  automaticReconnect : Bool
  shouldBeConnected : Bool
  retrying : Bool
  connect : ConnectCallbacks
  queued : Option ConnectCallbacks
  requested : List String

def topic : String := "/livingroom/battery1/sw"

/-- `MQTTAsync_subscribe` refuses a client that is not connected. -/
def mqttAsyncSubscribe (c : Client) (topic : String) : Client :=
  if c.connected then { c with requested := c.requested ++ [topic] } else c

def onConnect5S (c : Client) : Client := mqttAsyncSubscribe c topic

def startConnectRetry (c : Client) : Client :=
  if c.automaticReconnect && c.shouldBeConnected then { c with retrying := true } else c

def closeSession (c : Client) : Client :=
  { c with connected := false, connectState := .notInProgress }

/-- There is one server and one version to try; `connectionLost` is not set. -/
def nextOrClose (c : Client) : Client :=
  let c := closeSession c
  let c := if c.connect.onFailure5 then { c with connect := .cleared } else c
  startConnectRetry c

/-- A DISCONNECT of the library's own, queued when a packet could not be sent. -/
def disconnectInternal (c : Client) : Client :=
  let c := if c.connectState ≠ .notInProgress ∧ c.connect.onFailure5 then
      { c with connect := .cleared } else c
  startConnectRetry (closeSession c)

/-- A CONNACK with return code 0 begins a session, without subscriptions as `cleanstart` is
set. -/
def completeConnection (c : Client) (rc : ℤ) : Option Client :=
  if c.connectState = .waitForConnack ∧ rc = 0 then
    some { c with
      retrying := false
      connected := true
      connectState := .notInProgress
      requested := [] }
  else none

/-- The branch of `MQTTAsync_receiveThread` for a CONNACK; `connected` is not set. -/
def handleConnack (c : Client) (rc : ℤ) : Client :=
  match completeConnection c rc with
  | some c => if c.connect.onSuccess5 then { onConnect5S c with connect := .cleared } else c
  | none => nextOrClose c

/-- A CONNECT is not queued behind another.  For one client alone this is all that
`mqttAsyncAddCommand` does, see `headsQueue_run`. -/
def addCommand (c : Client) (command : ConnectCallbacks) : Client :=
  match c.queued with
  | some _ => c
  | none => { c with queued := some command }

def checkTimeouts (c : Client) : Client :=
  if c.automaticReconnect && c.retrying then addCommand c c.connect else c

/-- The library keeps the command whatever comes of it; if the server cannot be reached, its
callbacks stay set. -/
def processCommand (c : Client) (reached : Bool) : Client :=
  match c.queued with
  | none => c
  | some command =>
      let c := { c with queued := none, connect := command }
      if c.connectState ≠ .notInProgress ∨ c.connected then c
      else if reached then { c with connectState := .waitForConnack }
      else startConnectRetry { c with shouldBeConnected := true }

inductive ClientEvent
  | connack (rc : ℤ)
  | socketError
  | disconnect
  | checkTimeouts
  | processCommand (reached : Bool)

/-- The receive thread knows a client only by its socket. -/
def Client.HasSocket (c : Client) : Prop := c.connected ∨ c.connectState = .waitForConnack

instance (c : Client) : Decidable c.HasSocket := inferInstanceAs (Decidable (_ ∨ _))

def clientStep (c : Client) : ClientEvent → Client
  | .connack rc => if c.HasSocket then handleConnack c rc else c
  | .socketError => if c.HasSocket then nextOrClose c else c
  | .disconnect => if c.HasSocket then disconnectInternal c else c
  | .checkTimeouts => checkTimeouts c
  | .processCommand reached => processCommand c reached

def mqttsubInit : Client where
  connectState := .notInProgress
  connected := false
  automaticReconnect := true
  shouldBeConnected := true
  retrying := false
  connect := ⟨true, true⟩
  queued := some ⟨true, true⟩
  requested := []

/-! ## Sessions and subscriptions -/

/-- In a session that is open the topic has been subscribed to. -/
def SubscribedInSession (c : Client) : Prop := c.connected = true → topic ∈ c.requested

/-- A CONNACK that begins a session finds the success callback set. -/
def CallbackKept (c : Client) (e : ClientEvent) : Prop :=
  e = .connack 0 → c.connectState = .waitForConnack → c.connect.onSuccess5 = true

section Step

variable {c : Client} {e : ClientEvent}

theorem startConnectRetry_eq (c : Client) :
    startConnectRetry c =
      { c with retrying := (c.automaticReconnect && c.shouldBeConnected) || c.retrying } := by
  unfold startConnectRetry
  split
  · rename_i hretry
    rw [hretry, Bool.true_or]
  · rename_i hretry
    rw [Bool.eq_false_iff.mpr hretry, Bool.false_or]

theorem nextOrClose_connected (c : Client) : (nextOrClose c).connected = false := by
  unfold nextOrClose
  rw [startConnectRetry_eq]
  split <;> rfl

theorem disconnectInternal_connected (c : Client) : (disconnectInternal c).connected = false := by
  unfold disconnectInternal
  rw [startConnectRetry_eq]
  rfl

theorem handleConnack_success (hwait : c.connectState = .waitForConnack) :
    (handleConnack c 0).connected = true ∧
      (handleConnack c 0).requested = (if c.connect.onSuccess5 then [topic] else []) ∧
      (handleConnack c 0).queued = c.queued ∧
      (handleConnack c 0).connect = if c.connect.onSuccess5 then .cleared else c.connect := by
  by_cases hset : c.connect.onSuccess5 = true
  · simp [handleConnack, completeConnection, hwait, hset, onConnect5S, mqttAsyncSubscribe]
  · simp [handleConnack, completeConnection, hwait, hset]

theorem handleConnack_failure {rc : ℤ} (h : ¬ (c.connectState = .waitForConnack ∧ rc = 0)) :
    handleConnack c rc = nextOrClose c := by
  unfold handleConnack completeConnection
  rw [if_neg h]

theorem checkTimeouts_keeps (c : Client) :
    (checkTimeouts c).connected = c.connected ∧ (checkTimeouts c).requested = c.requested ∧
      (checkTimeouts c).connect = c.connect ∧
      ∀ command, (checkTimeouts c).queued = some command →
        c.queued = some command ∨ command = c.connect := by
  unfold checkTimeouts addCommand
  split
  · split
    · exact ⟨rfl, rfl, rfl, fun _ h => .inl h⟩
    · exact ⟨rfl, rfl, rfl, fun _ h => .inr (Option.some.inj h).symm⟩
  · exact ⟨rfl, rfl, rfl, fun _ h => .inl h⟩

theorem processCommand_keeps (c : Client) (reached : Bool) :
    (processCommand c reached).connected = c.connected ∧
      (processCommand c reached).requested = c.requested ∧
      (processCommand c reached).queued = none ∧
      (processCommand c reached).connect = c.queued.getD c.connect := by
  unfold processCommand
  split
  · rename_i hnone
    exact ⟨rfl, rfl, hnone, by rw [hnone]; rfl⟩
  · rename_i command hsome
    rw [hsome]
    dsimp only
    split
    · exact ⟨rfl, rfl, rfl, rfl⟩
    · split
      · exact ⟨rfl, rfl, rfl, rfl⟩
      · rw [startConnectRetry_eq]
        exact ⟨rfl, rfl, rfl, rfl⟩

theorem subscribed_of_disconnected (h : c.connected = false) : SubscribedInSession c := by
  intro hconn
  rw [h] at hconn
  exact absurd hconn Bool.false_ne_true

theorem SubscribedInSession.step_iff (h : SubscribedInSession c) (e : ClientEvent) :
    SubscribedInSession (clientStep c e) ↔ CallbackKept c e := by
  cases e with
  | connack rc =>
      by_cases hanswer : c.connectState = .waitForConnack ∧ rc = 0
      · obtain ⟨hwait, rfl⟩ := hanswer
        obtain ⟨hconn, hrequested, -⟩ := handleConnack_success hwait
        have hsocket : c.HasSocket := .inr hwait
        unfold SubscribedInSession CallbackKept
        rw [clientStep, if_pos hsocket, hconn, hrequested]
        constructor
        · intro hmem _ _
          by_contra hcleared
          rw [if_neg hcleared] at hmem
          exact absurd (hmem rfl) List.not_mem_nil
        · intro hkept _
          rw [if_pos (hkept rfl hwait)]
          exact List.mem_cons_self
      · have hkept : CallbackKept c (.connack rc) := by
          intro heq hwait
          exact absurd ⟨hwait, ClientEvent.connack.inj heq⟩ hanswer
        apply iff_of_true _ hkept
        rw [clientStep]
        split
        · rw [handleConnack_failure hanswer]
          exact subscribed_of_disconnected (nextOrClose_connected c)
        · exact h
  | socketError =>
      apply iff_of_true _ (fun heq => absurd heq (by simp))
      rw [clientStep]
      split
      · exact subscribed_of_disconnected (nextOrClose_connected c)
      · exact h
  | disconnect =>
      apply iff_of_true _ (fun heq => absurd heq (by simp))
      rw [clientStep]
      split
      · exact subscribed_of_disconnected (disconnectInternal_connected c)
      · exact h
  | checkTimeouts =>
      obtain ⟨hconn, hrequested, -⟩ := checkTimeouts_keeps c
      apply iff_of_true _ (fun heq => absurd heq (by simp))
      unfold SubscribedInSession
      rw [clientStep, hconn, hrequested]
      exact h
  | processCommand reached =>
      obtain ⟨hconn, hrequested, -⟩ := processCommand_keeps c reached
      apply iff_of_true _ (fun heq => absurd heq (by simp))
      unfold SubscribedInSession
      rw [clientStep, hconn, hrequested]
      exact h

end Step

/-- **When the subscription survives.**  In every session of a run a subscribe is requested
exactly if every CONNACK that begins one finds the success callback still set. -/
theorem subscribedInSession_iff (events : List ClientEvent) :
    Throughout clientStep mqttsubInit SubscribedInSession events ↔
      Along clientStep mqttsubInit CallbackKept events :=
  throughout_iff_along (I := fun _ => True) trivial (fun _ _ _ => trivial)
    (fun hconn => absurd hconn Bool.false_ne_true) (fun _ e _ h => h.step_iff e) events

/-! ## Without a CONNECT left over -/

def ClientEvent.settles : ClientEvent → Bool
  | .connack _ | .socketError | .disconnect => true
  | _ => false

def settledNext (c : Client) (e : ClientEvent) (settled : Bool) : Bool :=
  settled || (e.settles && decide c.HasSocket)

def NoneLeftOver (w : Client × Bool) (e : ClientEvent) : Prop :=
  e.settles = true → w.1.HasSocket → w.1.queued = none

def FirstSession (w : Client × Bool) (e : ClientEvent) : Prop :=
  e = .connack 0 → w.1.connectState = .waitForConnack → w.2 = false

structure Unspent (w : Client × Bool) : Prop where
  connect_eq : w.1.connect = if w.2 then .cleared else ⟨true, true⟩
  queued_eq : ∀ command, w.1.queued = some command → command = w.1.connect
  connected : w.1.connected = true → w.2 = true

section Unspent

variable {w : Client × Bool}

theorem unspent_init : Unspent (mqttsubInit, false) where
  connect_eq := rfl
  queued_eq := fun _ h => (Option.some.inj h).symm
  connected := fun h => absurd h Bool.false_ne_true

theorem Unspent.cleared (h : Unspent w) (hfailure : w.1.connect.onFailure5 = false) :
    w.1.connect = .cleared := by
  rw [h.connect_eq] at hfailure ⊢
  cases hw : w.2 with
  | true => rfl
  | false => rw [hw] at hfailure; exact absurd hfailure (by decide)

theorem Unspent.nextOrClose (h : Unspent w) :
    (nextOrClose w.1).connect = .cleared ∧ (nextOrClose w.1).queued = w.1.queued := by
  unfold Mqtt.nextOrClose closeSession
  rw [startConnectRetry_eq]
  dsimp only
  split
  · exact ⟨rfl, rfl⟩
  · rename_i hfailure
    exact ⟨h.cleared (Bool.not_eq_true _ ▸ hfailure), rfl⟩

theorem Unspent.disconnectInternal (h : Unspent w) (hsocket : w.1.HasSocket) :
    (disconnectInternal w.1).connect = .cleared ∧
      (disconnectInternal w.1).queued = w.1.queued := by
  unfold Mqtt.disconnectInternal closeSession
  rw [startConnectRetry_eq]
  dsimp only
  split
  · exact ⟨rfl, rfl⟩
  · rename_i hfailure
    refine ⟨?_, rfl⟩
    rcases hsocket with hconn | hwait
    · rw [h.connect_eq, if_pos (h.connected hconn)]
    · apply h.cleared
      by_contra hset
      exact hfailure ⟨by simp [hwait], Bool.not_eq_false _ ▸ hset⟩

theorem Unspent.handleConnack (h : Unspent w) (rc : ℤ) :
    (handleConnack w.1 rc).connect = .cleared ∧
      (handleConnack w.1 rc).queued = w.1.queued := by
  by_cases hanswer : w.1.connectState = .waitForConnack ∧ rc = 0
  · obtain ⟨hwait, rfl⟩ := hanswer
    obtain ⟨-, -, hqueued, hconnect⟩ := handleConnack_success hwait
    refine ⟨?_, hqueued⟩
    rw [hconnect, h.connect_eq]
    cases w.2 <;> rfl
  · rw [handleConnack_failure hanswer]
    exact h.nextOrClose

theorem Unspent.settle {c : Client} (hconnect : c.connect = .cleared) (hqueued : c.queued = none) :
    Unspent (c, true) where
  connect_eq := hconnect
  queued_eq := fun _ h => absurd (hqueued.symm.trans h) (by simp)
  connected := fun _ => rfl

theorem Unspent.step (h : Unspent w) (e : ClientEvent) (hnone : NoneLeftOver w e) :
    Unspent (watch clientStep settledNext w e) := by
  by_cases hsettles : e.settles = true ∧ w.1.HasSocket
  · obtain ⟨hset, hsocket⟩ := hsettles
    have hsettled : settledNext w.1 e w.2 = true := by simp [settledNext, hset, hsocket]
    have hqueue := hnone hset hsocket
    rw [watch, hsettled]
    cases e with
    | connack rc =>
        rw [clientStep, if_pos hsocket]
        obtain ⟨hconnect, hkeep⟩ := h.handleConnack rc
        exact Unspent.settle hconnect (hkeep.trans hqueue)
    | socketError =>
        rw [clientStep, if_pos hsocket]
        obtain ⟨hconnect, hkeep⟩ := h.nextOrClose
        exact Unspent.settle hconnect (hkeep.trans hqueue)
    | disconnect =>
        rw [clientStep, if_pos hsocket]
        obtain ⟨hconnect, hkeep⟩ := h.disconnectInternal hsocket
        exact Unspent.settle hconnect (hkeep.trans hqueue)
    | checkTimeouts | processCommand reached => exact absurd hset (by simp [ClientEvent.settles])
  · have hsame : settledNext w.1 e w.2 = w.2 := by
      unfold settledNext
      by_cases hset : e.settles = true
      · rw [decide_eq_false fun hs => hsettles ⟨hset, hs⟩, Bool.and_false, Bool.or_false]
      · rw [Bool.eq_false_iff.mpr hset, Bool.false_and, Bool.or_false]
    rw [watch, hsame]
    cases e with
    | connack rc | socketError | disconnect =>
        rw [clientStep, if_neg fun hs => hsettles ⟨rfl, hs⟩]
        exact h
    | checkTimeouts =>
        obtain ⟨hconn, -, hconnect, hqueued⟩ := checkTimeouts_keeps w.1
        rw [clientStep]
        refine ⟨hconnect.trans h.connect_eq, ?_, fun hc => h.connected (hconn ▸ hc)⟩
        intro command hcommand
        rw [hconnect]
        rcases hqueued command hcommand with hold | hnew
        · exact h.queued_eq command hold
        · exact hnew
    | processCommand reached =>
        obtain ⟨hconn, -, hqueued, hconnect⟩ := processCommand_keeps w.1 reached
        have hkept : w.1.queued.getD w.1.connect = w.1.connect := by
          cases hw : w.1.queued with
          | none => rfl
          | some command => exact h.queued_eq command hw
        rw [clientStep]
        refine ⟨(hconnect.trans hkept).trans h.connect_eq, ?_, fun hc => h.connected (hconn ▸ hc)⟩
        intro command hcommand
        exact absurd (hqueued.symm.trans hcommand) (by simp)

end Unspent

theorem subscribedInSession_iff_first {events : List ClientEvent}
    (hnone : Along (watch clientStep settledNext) (mqttsubInit, false) NoneLeftOver events) :
    Throughout clientStep mqttsubInit SubscribedInSession events ↔
      Along (watch clientStep settledNext) (mqttsubInit, false) FirstSession events := by
  have hunspent := throughout_of_along unspent_init (fun _ e h hn => h.step e hn) hnone
  have hwatch : Along (watch clientStep settledNext) (mqttsubInit, false)
      (fun w e => CallbackKept w.1 e) events ↔
        Along clientStep mqttsubInit CallbackKept events := along_watch clientStep settledNext
  have hkept : Throughout clientStep mqttsubInit SubscribedInSession events ↔
      Along clientStep mqttsubInit CallbackKept events :=
    throughout_iff_along (I := fun _ => True) trivial (fun _ _ _ => trivial)
      (fun hconn => absurd hconn Bool.false_ne_true) (fun _ e _ h => h.step_iff e) events
  rw [hkept, ← hwatch]
  apply hunspent.along_congr
  intro w e h
  unfold CallbackKept FirstSession
  have hset : w.1.connect.onSuccess5 = true ↔ w.2 = false := by
    rw [h.connect_eq]
    cases w.2 <;> decide
  rw [hset]

def dropAndReconnect : List ClientEvent :=
  [.processCommand true, .connack 0, .socketError, .checkTimeouts, .processCommand true, .connack 0]

theorem second_session_unsubscribed :
    ¬ Throughout clientStep mqttsubInit SubscribedInSession dropAndReconnect := by
  intro h
  have hmem := h dropAndReconnect (List.prefix_refl _) (by decide)
  have hrequested : (run clientStep mqttsubInit dropAndReconnect).requested = [] := by decide
  rw [hrequested] at hmem
  exact absurd hmem List.not_mem_nil

/-! ## The queue of a client alone -/

def connectCommand (k : ℕ) : QueuedCommand := { client := k, token := 0, type := .connect }

/-- The list of commands of the client alone: the CONNECT that is queued, then its requests.  A
DISCONNECT is left out; the step `disconnect` stands for one that is queued and carried out. -/
def HeadsQueue (k : ℕ) (c : Client) (commands : List QueuedCommand) : Prop :=
  ∃ requests, commands = (c.queued.map fun _ => connectCommand k).toList ++ requests ∧
    ∀ b ∈ requests, b.isConnection = false

section Alone

variable {k : ℕ} {c : Client} {q : Sending} {request : QueuedCommand}

theorem findAtHead_of_requests {requests : List QueuedCommand}
    (h : ∀ b ∈ requests, b.isConnection = false) : findAtHead k requests = false := by
  cases requests with
  | nil => rfl
  | cons b requests => rw [findAtHead, h b List.mem_cons_self, Bool.false_and]

theorem findAtHead_connectCommand (requests : List QueuedCommand) :
    findAtHead k (connectCommand k :: requests) = true := by
  simp [findAtHead, connectCommand, QueuedCommand.isConnection]

theorem HeadsQueue.findAtHead_eq {commands : List QueuedCommand} (h : HeadsQueue k c commands) :
    findAtHead k commands = c.queued.isSome := by
  obtain ⟨requests, rfl, hrequests⟩ := h
  cases hqueued : c.queued with
  | none => exact findAtHead_of_requests hrequests
  | some command => exact findAtHead_connectCommand requests

/-- The queue keeps a CONNECT of the client alone exactly if `addCommand` does. -/
theorem HeadsQueue.addCommand (h : HeadsQueue k c q.commands) (command : ConnectCallbacks) :
    HeadsQueue k (addCommand c command) (mqttAsyncAddCommand q (connectCommand k)).2.commands := by
  have hhead := h.findAtHead_eq
  obtain ⟨requests, hcommands, hrequests⟩ := h
  refine ⟨requests, ?_, hrequests⟩
  have hfirst : (connectCommand k).goesFirst = true := rfl
  have hclient : (connectCommand k).client = k := rfl
  unfold mqttAsyncAddCommand CatDect.Mqtt.addCommand
  rw [if_pos hfirst, hclient, hhead]
  cases hqueued : c.queued with
  | none =>
      rw [hqueued] at hcommands
      exact congrArg (List.cons (connectCommand k)) hcommands
  | some old => exact hcommands

theorem HeadsQueue.append (h : HeadsQueue k c q.commands)
    (hrequest : request.isConnection = false) :
    HeadsQueue k c (q.commands ++ [request]) := by
  obtain ⟨requests, hcommands, hrequests⟩ := h
  refine ⟨requests ++ [request], ?_, ?_⟩
  · rw [hcommands, List.append_assoc]
  · intro b hb
    rcases List.mem_append.mp hb with hold | hnew
    · exact hrequests b hold
    · rw [List.mem_singleton.mp hnew]
      exact hrequest

theorem HeadsQueue.addRequest (h : HeadsQueue k c q.commands)
    (hrequest : request.isConnection = false) (hpublish : request.isPublish = false) :
    HeadsQueue k c (mqttAsyncAddCommand q request).2.commands := by
  have hlast : ¬ request.goesFirst = true := by
    intro hfirst
    rw [isConnection_of_goesFirst hfirst] at hrequest
    exact Bool.noConfusion hrequest
  unfold mqttAsyncAddCommand
  rw [if_neg hlast]
  dsimp only
  rw [if_neg (Bool.eq_false_iff.mp hpublish)]
  exact h.append hrequest

theorem HeadsQueue.processCommand (h : HeadsQueue k c q.commands) (hqueued : c.queued ≠ none)
    (reached : Bool) :
    HeadsQueue k (processCommand c reached)
      (mqttAsyncProcessCommand q .complete false).commands := by
  obtain ⟨requests, hcommands, hrequests⟩ := h
  obtain ⟨command, hcommand⟩ := Option.ne_none_iff_exists'.mp hqueued
  have hnext : nextCommand q.clients [] q.commands = some (connectCommand k, requests) := by
    rw [hcommands, hcommand]
    rfl
  refine ⟨requests, ?_, hrequests⟩
  rw [(processCommand_keeps c reached).2.2.1]
  unfold mqttAsyncProcessCommand
  rw [hnext]
  rfl

theorem HeadsQueue.subscribeMany (h : HeadsQueue k c q.commands)
    (topics : List (List UInt8 × ℤ)) (response : Option ResponseOptions) :
    HeadsQueue k c (queueStep q (.subscribeMany k topics response)).commands := by
  apply leaves_result (P := fun q' => HeadsQueue k c q'.commands) h
  refine leaves_requestMany h fun msgid q' hassign => ?_
  have hsame : HeadsQueue k c q'.commands := by
    rw [(sameQueue_assignMsgId hassign).commands]
    exact h
  exact ⟨hsame, fun _ => hsame.addRequest rfl rfl⟩

/-- What a step of the client means for the queue, `connection` being that of a new session. -/
def ClientEvent.queueEvents (k : ℕ) (connection : Connection) (qos : ℤ)
    (response : Option ResponseOptions) (c : Client) : ClientEvent → List QueueEvent
  | .connack rc =>
      if c.connectState = .waitForConnack ∧ rc = 0 ∧ c.connect.onSuccess5 = true then
        [.link k connection, .subscribeMany k [(topic.toUTF8.toList, qos)] response]
      else []
  | .checkTimeouts => if c.automaticReconnect && c.retrying then [.connect k] else []
  | .processCommand _ => if c.queued.isSome then [.process .complete false] else []
  | _ => []

theorem nextOrClose_queued (c : Client) : (nextOrClose c).queued = c.queued := by
  unfold nextOrClose
  rw [startConnectRetry_eq]
  split <;> rfl

theorem disconnectInternal_queued (c : Client) : (disconnectInternal c).queued = c.queued := by
  unfold disconnectInternal
  rw [startConnectRetry_eq]
  dsimp only [closeSession]
  split <;> rfl

theorem handleConnack_queued (c : Client) (rc : ℤ) : (handleConnack c rc).queued = c.queued := by
  by_cases hanswer : c.connectState = .waitForConnack ∧ rc = 0
  · obtain ⟨hwait, rfl⟩ := hanswer
    exact (handleConnack_success hwait).2.2.1
  · rw [handleConnack_failure hanswer]
    exact nextOrClose_queued c

theorem HeadsQueue.of_queued {c' : Client} (h : HeadsQueue k c q.commands)
    (hsame : c'.queued = c.queued) : HeadsQueue k c' q.commands := by
  unfold HeadsQueue
  rw [hsame]
  exact h

theorem HeadsQueue.step (h : HeadsQueue k c q.commands) (connection : Connection) (qos : ℤ)
    (response : Option ResponseOptions) (e : ClientEvent) :
    HeadsQueue k (clientStep c e)
      (run queueStep q (e.queueEvents k connection qos response c)).commands := by
  cases e with
  | connack rc =>
      have hqueued : (clientStep c (.connack rc)).queued = c.queued := by
        rw [clientStep]
        split
        · exact handleConnack_queued c rc
        · rfl
      refine HeadsQueue.of_queued ?_ hqueued
      rw [ClientEvent.queueEvents]
      split
      · have hlinked : HeadsQueue k c (queueStep q (.link k connection)).commands := h
        exact hlinked.subscribeMany [(topic.toUTF8.toList, qos)] response
      · exact h
  | socketError =>
      rw [clientStep]
      split
      · exact h.of_queued (nextOrClose_queued c)
      · exact h
  | disconnect =>
      rw [clientStep]
      split
      · exact h.of_queued (disconnectInternal_queued c)
      · exact h
  | checkTimeouts =>
      rw [clientStep, checkTimeouts, ClientEvent.queueEvents]
      split
      · exact h.addCommand c.connect
      · exact h
  | processCommand reached =>
      rw [clientStep, ClientEvent.queueEvents]
      cases hqueued : c.queued with
      | none =>
          rw [CatDect.Mqtt.processCommand, hqueued]
          exact h
      | some command =>
          have hne : c.queued ≠ none := by
            rw [hqueued]
            exact Option.some_ne_none command
          exact h.processCommand hne reached

/-- **For a client alone an `Option` is enough.**  In every run its CONNECT, if one is queued, is
at the head of the queue, and no other CONNECT is in it. -/
theorem headsQueue_run (clients : ℕ → Option CreateOptions × ℕ) (k : ℕ) (connection : Connection)
    (qos : ℤ) (response : Option ResponseOptions) (events : List ClientEvent) :
    let w := run
      (watch clientStep fun c e q => run queueStep q (e.queueEvents k connection qos response c))
      (mqttsubInit, queueStep (.init clients) (.connect k)) events
    HeadsQueue k w.1 w.2.commands := by
  refine run_invariant (I := fun w : Client × Sending => HeadsQueue k w.1 w.2.commands)
    ⟨[], rfl, nofun⟩ ?_ events
  rintro ⟨c, q⟩ e h
  exact h.step connection qos response e

end Alone

end CatDect.Mqtt
