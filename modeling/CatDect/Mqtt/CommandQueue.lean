import CatDect.Mqtt.Utf8
import CatDect.Support.Fifo
import CatDect.Support.Interleaving
import Mathlib.Logic.Function.Basic
import Mathlib.Logic.Relation

/-!
# The queue of commands

The publisher and the subscriber are two clients of one library.  Their calls only queue a
command; the sending thread takes the commands up, passing over a client that is not ready.
The list is changed under a lock.  `MQTTAsync_send` looks at the buffer before it takes that
lock; a call is one step all the same, as the calls of one client come one after another and
the sending thread only makes room.  So a run is a sequence of calls, of commands taken up and
of changes of the connections, in any order.
-/

namespace CatDect.Mqtt

open CatDect.Support

/-! ## The code -/

/-- `MQTTAsync_createOptions`; `MQTTAsync_createWithOptions` refuses a buffer without room. -/
structure CreateOptions where
  structVersion : ℕ
  sendWhileDisconnected : Bool
  maxBufferedMessages : ℤ
  room : 0 < maxBufferedMessages
  allowDisconnectedSendAtAnyTime : Bool
  deleteOldestMessages : Bool

structure ResponseOptions where
  structVersion : ℕ
  onSuccess : Bool
  onFailure : Bool
  onSuccess5 : Bool
  onFailure5 : Bool
  subscribeOptionsCount : ℕ

inductive CommandType
  | connect
  | disconnect (internal : Bool)
  | publish (destinationName payload : List UInt8) (qos : ℕ) (retained : Bool)
  | subscribe (topics : List (List UInt8)) (qoss : List ℤ)
  | unsubscribe (topics : List (List UInt8))
deriving DecidableEq

structure QueuedCommand where
  client : ℕ
  token : ℕ
  type : CommandType
deriving DecidableEq

def QueuedCommand.isPublish (command : QueuedCommand) : Bool :=
  match command.type with
  | .publish _ _ _ _ => true
  | _ => false

def QueuedCommand.isConnection (command : QueuedCommand) : Bool :=
  match command.type with
  | .connect => true
  | .disconnect _ => true
  | _ => false

/-- The commands for the head of the list. -/
def QueuedCommand.goesFirst (command : QueuedCommand) : Bool :=
  match command.type with
  | .connect => true
  | .disconnect internal => internal
  | _ => false

def QueuedCommand.answered (command : QueuedCommand) : Bool :=
  match command.type with
  | .publish _ _ qos _ => decide (0 < qos)
  | .subscribe _ _ => true
  | .unsubscribe _ => true
  | _ => false

/-- The state of a connection.  `connecting` stands for `connect_state != NOT_IN_PROGRESS`. -/
structure Connection where
  connected : Bool
  connecting : Bool
  pendingWrites : Bool
  shouldBeConnected : Bool
  maxInflightMessages : ℕ

/-- `MQTTAsyncs` with its `Clients`; of `outboundMsgs` the message ids. -/
structure MqttAsyncs where
  createOptions : Option CreateOptions
  mqttVersion : ℕ
  connection : Connection
  noBufferedMessages : ℤ
  outboundMsgs : List ℕ
  responses : List QueuedCommand
  msgID : ℕ

/-- `MQTTAsync_commands` and the clients.  The last three fields record what was appended to
the list, what was taken up and what was deleted; the code does not read them. -/
structure Sending where
  commands : List QueuedCommand
  clients : ℕ → MqttAsyncs
  accepted : List QueuedCommand
  started : List QueuedCommand
  dropped : List QueuedCommand

def Sending.setClient (q : Sending) (k : ℕ) (m : MqttAsyncs) : Sending :=
  { q with clients := Function.update q.clients k m }

inductive ReturnCode
  | success
  | failure
  | disconnected
  | badUtf8String
  | badQos
  | noMoreMsgids
  | maxBufferedMessages
  | badMqttOption
  | commandIgnored
deriving DecidableEq

def maxMsgId : ℕ := 65535

def nextMsgId (msgid : ℕ) : ℕ := if msgid = maxMsgId then 1 else msgid + 1

/-- The loop of `MQTTAsync_assignMsgId`; `none` if it goes on after `rounds` rounds. -/
def assignLoop (used : ℕ → Bool) (start : ℕ) : ℕ → ℕ → Option ℕ
  | 0, _ => none
  | rounds + 1, msgid =>
      if used msgid then
        if nextMsgId msgid = start then some 0
        else assignLoop used start rounds (nextMsgId msgid)
      else some msgid

/-- The ids are looked up in the commands of all clients. -/
def Sending.msgIdUsed (q : Sending) (m : MqttAsyncs) (msgid : ℕ) : Bool :=
  q.commands.any (fun c => c.token = msgid) || m.outboundMsgs.contains msgid ||
    m.responses.any fun c => c.token = msgid

/-- `MQTTAsync_assignMsgId`; `none` if it does not return.  There are `maxMsgId` ids to try. -/
def mqttAsyncAssignMsgId (q : Sending) (k : ℕ) : Option (ℕ × Sending) :=
  let m := q.clients k
  (assignLoop (q.msgIdUsed m) m.msgID (maxMsgId + 1) (nextMsgId m.msgID)).map fun msgid =>
    if msgid = 0 then (0, q) else (msgid, q.setClient k { m with msgID := msgid })

/-- The search goes from the first element backwards, so it ends there. -/
def findAtHead (client : ℕ) : List QueuedCommand → Bool
  | [] => false
  | cur :: _ => cur.isConnection && decide (cur.client = client)

def MqttAsyncs.bufferFull (m : MqttAsyncs) : Bool :=
  m.createOptions.any fun o => decide (o.maxBufferedMessages ≤ m.noBufferedMessages)

def publishFor (client : ℕ) (cmd : QueuedCommand) : Bool :=
  decide (cmd.client = client) && cmd.isPublish

/-- The oldest message is deleted if the buffer is full, otherwise one more is counted. -/
def countPublish (q : Sending) (client : ℕ) : Sending :=
  let m := q.clients client
  if m.bufferFull then
    { q with
      commands := q.commands.eraseP (publishFor client)
      dropped := q.dropped ++ (q.commands.find? (publishFor client)).toList }
  else q.setClient client { m with noBufferedMessages := m.noBufferedMessages + 1 }

def mqttAsyncAddCommand (q : Sending) (command : QueuedCommand) : ReturnCode × Sending :=
  if command.goesFirst then
    if findAtHead command.client q.commands then (.commandIgnored, q)
    else (.success, { q with commands := command :: q.commands })
  else
    let q : Sending :=
      { q with commands := q.commands ++ [command], accepted := q.accepted ++ [command] }
    if command.isPublish then (.success, countPublish q command.client) else (.success, q)

def ResponseOptions.refused (response : ResponseOptions) (mqttVersion : ℕ) : Bool :=
  if 5 ≤ mqttVersion then
    decide (response.structVersion = 0) || response.onFailure || response.onSuccess
  else decide (1 ≤ response.structVersion) && (response.onFailure5 || response.onSuccess5)

/-- The first checks of `MQTTAsync_send`. -/
def sendRefused (m : MqttAsyncs) : Bool :=
  !m.connection.connected &&
    match m.createOptions with
    | none => true
    | some o =>
        !o.sendWhileDisconnected || (!m.connection.shouldBeConnected &&
          (decide (o.structVersion < 2) || !o.allowDisconnectedSendAtAnyTime))

def newestRefused (m : MqttAsyncs) : Bool :=
  m.bufferFull && m.createOptions.any fun o =>
    decide (o.structVersion < 2) || !o.deleteOldestMessages

def responseRefused (response : Option ResponseOptions) (m : MqttAsyncs) : Bool :=
  response.any fun r => r.refused m.mqttVersion

def sendMsgId (q : Sending) (k : ℕ) (qos : ℤ) : Option (ℕ × Sending) :=
  if 0 < qos then mqttAsyncAssignMsgId q k else some (0, q)

/-- `none` if it does not return. -/
def mqttAsyncSend (q : Sending) (k : ℕ) (destinationName payload : List UInt8) (qos : ℤ)
    (retained : Bool) (response : Option ResponseOptions) : Option (ReturnCode × Sending) := do
  if sendRefused (q.clients k) then return (.disconnected, q)
  if !(← utf8ValidateString (some destinationName)) then return (.badUtf8String, q)
  if qos < 0 ∨ 2 < qos then return (.badQos, q)
  let (msgid, q) ← sendMsgId q k qos
  if 0 < qos ∧ msgid = 0 then return (.noMoreMsgids, q)
  if newestRefused (q.clients k) then return (.maxBufferedMessages, q)
  if responseRefused response (q.clients k) then return (.badMqttOption, q)
  return mqttAsyncAddCommand q
    { client := k, token := msgid, type := .publish destinationName payload qos.toNat retained }

def topicsRefused : List (List UInt8 × ℤ) → Option (Option ReturnCode)
  | [] => some none
  | (topic, qos) :: topics => do
      if !(← utf8ValidateString (some topic)) then return some .badUtf8String
      if qos < 0 ∨ 2 < qos then return some .badQos
      topicsRefused topics

/-- What `MQTTAsync_subscribeMany` and `MQTTAsync_unsubscribeMany` have in common. -/
def requestMany (q : Sending) (k : ℕ) (topics : List (List UInt8 × ℤ))
    (optionRefused : MqttAsyncs → Option Bool) (type : CommandType) :
    Option (ReturnCode × Sending) := do
  if !(q.clients k).connection.connected then return (.disconnected, q)
  if let some rc ← topicsRefused topics then return (rc, q)
  let (msgid, q) ← mqttAsyncAssignMsgId q k
  if msgid = 0 then return (.noMoreMsgids, q)
  if ← optionRefused (q.clients k) then return (.badMqttOption, q)
  return mqttAsyncAddCommand q { client := k, token := msgid, type := type }

/-- The number of subscribe options is read through `response`, null or not. -/
def subscribeOptionsRefused (count : ℕ) (response : Option ResponseOptions) (m : MqttAsyncs) :
    Option Bool :=
  if 5 ≤ m.mqttVersion ∧ 1 < count then
    response.map fun r =>
      (decide (count ≠ r.subscribeOptionsCount) && decide (r.subscribeOptionsCount ≠ 0)) ||
        r.refused m.mqttVersion
  else some (responseRefused response m)

/-- `none` if it does not return, or reads through a null pointer. -/
def mqttAsyncSubscribeMany (q : Sending) (k : ℕ) (topics : List (List UInt8 × ℤ))
    (response : Option ResponseOptions) : Option (ReturnCode × Sending) :=
  requestMany q k topics (subscribeOptionsRefused topics.length response)
    (.subscribe (topics.map Prod.fst) (topics.map Prod.snd))

def mqttAsyncUnsubscribeMany (q : Sending) (k : ℕ) (topics : List (List UInt8))
    (response : Option ResponseOptions) : Option (ReturnCode × Sending) :=
  requestMany q k (topics.map fun topic => (topic, 0)) (fun m => some (responseRefused response m))
    (.unsubscribe topics)

def Sending.setConnection (q : Sending) (k : ℕ) (connection : Connection) : Sending :=
  q.setClient k { q.clients k with connection := connection }

def Sending.setShouldBeConnected (q : Sending) (k : ℕ) (should : Bool) : Sending :=
  q.setConnection k { (q.clients k).connection with shouldBeConnected := should }

def mqttAsyncDisconnect1 (q : Sending) (k : ℕ) (internal : Bool) : ReturnCode × Sending :=
  let q := if internal then q else q.setShouldBeConnected k false
  if !(q.clients k).connection.connected then (.disconnected, q)
  else mqttAsyncAddCommand q { client := k, token := 0, type := .disconnect internal }

def mayStart (m : MqttAsyncs) (cmd : QueuedCommand) : Bool :=
  (cmd.isConnection || (m.connection.connected && !m.connection.connecting &&
      !m.connection.pendingWrites)) &&
    !(!cmd.isConnection && decide (maxMsgId - 1 ≤ m.outboundMsgs.length)) &&
    !(cmd.answered && decide (m.connection.maxInflightMessages ≤ m.outboundMsgs.length))

/-- The loop over the commands, with `ignored_clients`: the command that is taken up, and the
list without it. -/
def nextCommand (clients : ℕ → MqttAsyncs) (ignored : List ℕ) :
    List QueuedCommand → Option (QueuedCommand × List QueuedCommand)
  | [] => none
  | cmd :: rest =>
      if ignored.contains cmd.client then
        (nextCommand clients ignored rest).map fun (command, l) => (command, cmd :: l)
      else if mayStart (clients cmd.client) cmd then some (cmd, rest)
      else
        (nextCommand clients (ignored ++ [cmd.client]) rest).map fun (command, l) =>
          (command, cmd :: l)

inductive WriteResult
  | complete
  | interrupted
  | socketError
deriving DecidableEq

def keepCommand (m : MqttAsyncs) (command : QueuedCommand) (rc : WriteResult) : MqttAsyncs :=
  match command.type with
  | .publish _ _ qos _ =>
      let m := { m with noBufferedMessages := m.noBufferedMessages - 1 }
      if qos = 0 then
        if rc = .interrupted then { m with responses := m.responses ++ [command] } else m
      else
        let m := { m with outboundMsgs := m.outboundMsgs ++ [command.token] }
        if rc = .socketError then m else { m with responses := m.responses ++ [command] }
  | .subscribe _ _ =>
      if rc = .socketError then m else { m with responses := m.responses ++ [command] }
  | .unsubscribe _ =>
      if rc = .socketError then m else { m with responses := m.responses ++ [command] }
  | _ => m

def afterSocketError (q : Sending) (command : QueuedCommand) (moreToTry : Bool) : Sending :=
  match command.type with
  | .connect =>
      let q := (mqttAsyncDisconnect1 q command.client false).2.setShouldBeConnected
        command.client true
      if moreToTry then (mqttAsyncAddCommand q command).2 else q
  | .disconnect _ => q
  | _ => (mqttAsyncDisconnect1 q command.client true).2

def takeUp (q : Sending) (command : QueuedCommand) (commands : List QueuedCommand)
    (rc : WriteResult) : Sending :=
  let q : Sending := { q with commands := commands, started := q.started ++ [command] }
  q.setClient command.client (keepCommand (q.clients command.client) command rc)

def mqttAsyncProcessCommand (q : Sending) (rc : WriteResult) (moreToTry : Bool) : Sending :=
  match nextCommand q.clients [] q.commands with
  | none => q
  | some (command, commands) =>
      if rc = .socketError then afterSocketError (takeUp q command commands rc) command moreToTry
      else takeUp q command commands rc

def MqttAsyncs.acknowledge (m : MqttAsyncs) (msgid : ℕ) : MqttAsyncs :=
  { m with outboundMsgs := m.outboundMsgs.erase msgid }

def MqttAsyncs.respond (m : MqttAsyncs) (msgid : ℕ) : MqttAsyncs :=
  { m with responses := m.responses.eraseP fun c => c.token = msgid }

def mqttAsyncCleanSession (m : MqttAsyncs) : MqttAsyncs :=
  { m with outboundMsgs := [], responses := [], msgID := 0 }

/-- An acknowledgement takes a message out of those in flight, and a command out of those that
wait for a response; `link` stands for whatever happens to a connection. -/
inductive QueueEvent
  | send (k : ℕ) (destinationName payload : List UInt8) (qos : ℤ) (retained : Bool)
      (response : Option ResponseOptions)
  | subscribeMany (k : ℕ) (topics : List (List UInt8 × ℤ)) (response : Option ResponseOptions)
  | unsubscribeMany (k : ℕ) (topics : List (List UInt8)) (response : Option ResponseOptions)
  | connect (k : ℕ)
  | disconnect (k : ℕ) (internal : Bool)
  | process (rc : WriteResult) (moreToTry : Bool)
  | link (k : ℕ) (connection : Connection)
  | acknowledged (k : ℕ) (msgid : ℕ)
  | responded (k : ℕ) (msgid : ℕ)
  | cleanSession (k : ℕ)

def queueStep (q : Sending) : QueueEvent → Sending
  | .send k destinationName payload qos retained response =>
      ((mqttAsyncSend q k destinationName payload qos retained response).map Prod.snd).getD q
  | .subscribeMany k topics response =>
      ((mqttAsyncSubscribeMany q k topics response).map Prod.snd).getD q
  | .unsubscribeMany k topics response =>
      ((mqttAsyncUnsubscribeMany q k topics response).map Prod.snd).getD q
  | .connect k => (mqttAsyncAddCommand q { client := k, token := 0, type := .connect }).2
  | .disconnect k internal => (mqttAsyncDisconnect1 q k internal).2
  | .process rc moreToTry => mqttAsyncProcessCommand q rc moreToTry
  | .link k connection => q.setConnection k connection
  | .acknowledged k msgid => q.setClient k ((q.clients k).acknowledge msgid)
  | .responded k msgid => q.setClient k ((q.clients k).respond msgid)
  | .cleanSession k => q.setClient k (mqttAsyncCleanSession (q.clients k))

def mqttAsyncCreate (createOptions : Option CreateOptions) (mqttVersion : ℕ) : MqttAsyncs where
  createOptions := createOptions
  mqttVersion := mqttVersion
  connection := ⟨false, false, false, false, 0⟩
  noBufferedMessages := 0
  outboundMsgs := []
  responses := []
  msgID := 0

def Sending.init (clients : ℕ → Option CreateOptions × ℕ) : Sending where
  commands := []
  clients := fun k => mqttAsyncCreate (clients k).1 (clients k).2
  accepted := []
  started := []
  dropped := []

/-! ## Calls -/

def Leaves (call : Option (ReturnCode × Sending)) (P : Sending → Prop) : Prop :=
  ∀ rc q, call = some (rc, q) → P q

section Leaves

variable {P : Sending → Prop}

theorem leaves_pure {rc : ReturnCode} {q : Sending} (h : P q) :
    Leaves (pure (rc, q)) P := by
  intro rc' q' heq
  obtain ⟨rfl, rfl⟩ := Prod.mk.inj (Option.some.inj heq)
  exact h

theorem leaves_bind {α : Type} {x : Option α} {f : α → Option (ReturnCode × Sending)}
    (h : ∀ a, x = some a → Leaves (f a) P) : Leaves (x >>= f) P := by
  intro rc q heq
  obtain ⟨a, ha, hf⟩ := Option.bind_eq_some_iff.mp heq
  exact h a ha rc q hf

theorem leaves_ite {c : Prop} [Decidable c] {x y : Option (ReturnCode × Sending)}
    (hx : Leaves x P) (hy : Leaves y P) : Leaves (if c then x else y) P := by
  split
  · exact hx
  · exact hy

theorem leaves_result {call : Option (ReturnCode × Sending)} {q : Sending} (h : P q)
    (hcall : Leaves call P) : P ((call.map Prod.snd).getD q) := by
  cases hresult : call with
  | none => exact h
  | some w => exact hcall w.1 w.2 hresult

/-- A call of `MQTTAsync_send` leaves the queue as it is, but for a message id assigned, or
adds a PUBLISH command to it. -/
theorem leaves_send {q : Sending} {k : ℕ} {destinationName payload : List UInt8} {qos : ℤ}
    {retained : Bool} {response : Option ResponseOptions} (h : P q)
    (hid : ∀ msgid q', sendMsgId q k qos = some (msgid, q') → P q' ∧
      (¬(0 < qos ∧ msgid = 0) → newestRefused (q'.clients k) = false → P (mqttAsyncAddCommand q'
        { client := k, token := msgid,
          type := .publish destinationName payload qos.toNat retained }).2)) :
    Leaves (mqttAsyncSend q k destinationName payload qos retained response) P := by
  unfold mqttAsyncSend
  refine leaves_ite (leaves_pure h) (leaves_bind fun text _ => ?_)
  refine leaves_ite (leaves_pure h) (leaves_ite (leaves_pure h) (leaves_bind fun w hw => ?_))
  obtain ⟨msgid, q'⟩ := w
  obtain ⟨hq', hadd⟩ := hid msgid q' hw
  dsimp only
  split
  · exact leaves_pure hq'
  · rename_i hmsgid
    split
    · exact leaves_pure hq'
    · rename_i hroom
      exact leaves_ite (leaves_pure hq')
        (leaves_pure (hadd hmsgid (Bool.eq_false_iff.mpr hroom)))

theorem leaves_requestMany {q : Sending} {k : ℕ} {topics : List (List UInt8 × ℤ)}
    {optionRefused : MqttAsyncs → Option Bool} {type : CommandType} (h : P q)
    (hid : ∀ msgid q', mqttAsyncAssignMsgId q k = some (msgid, q') → P q' ∧
      (msgid ≠ 0 → P (mqttAsyncAddCommand q' { client := k, token := msgid, type := type }).2)) :
    Leaves (requestMany q k topics optionRefused type) P := by
  unfold requestMany
  refine leaves_ite (leaves_pure h) (leaves_bind fun refused _ => ?_)
  cases refused with
  | some rc => exact leaves_pure h
  | none =>
      refine leaves_bind fun w hw => ?_
      obtain ⟨msgid, q'⟩ := w
      obtain ⟨hq', hadd⟩ := hid msgid q' hw
      dsimp only
      split
      · exact leaves_pure hq'
      · rename_i hmsgid
        exact leaves_bind fun option _ =>
          leaves_ite (leaves_pure hq') (leaves_pure (hadd hmsgid))

end Leaves

/-! ## What a step can do -/

structure Sending.FreshId (q : Sending) (k msgid : ℕ) : Prop where
  ne_zero : msgid ≠ 0
  last : (q.clients k).msgID = msgid
  unused : q.msgIdUsed (q.clients k) msgid = false

/-- A PUBLISH command is added only if there is room for it or an old message may be deleted,
and a command that is answered only with an id of its own. -/
structure Addable (q : Sending) (command : QueuedCommand) : Prop where
  room : command.isPublish = true → newestRefused (q.clients command.client) = false
  ids : command.isConnection = false → command.answered = false ∧ command.token = 0 ∨
    q.FreshId command.client command.token

inductive Change : Sending → Sending → Prop
  | link (q : Sending) (k : ℕ) (connection : Connection) : Change q (q.setConnection k connection)
  | assign {q q' : Sending} {k msgid : ℕ} (h : mqttAsyncAssignMsgId q k = some (msgid, q')) :
      Change q q'
  | add {q : Sending} {command : QueuedCommand} (h : Addable q command) :
      Change q (mqttAsyncAddCommand q command).2
  | start {q : Sending} {command : QueuedCommand} {rest : List QueuedCommand} (rc : WriteResult)
      (hstart : mayStart (q.clients command.client) command = true)
      (h : TakesFirst QueuedCommand.client command q.commands rest) :
      Change q (takeUp q command rest rc)
  | acknowledge (q : Sending) (k msgid : ℕ) :
      Change q (q.setClient k ((q.clients k).acknowledge msgid))
  | respond (q : Sending) (k msgid : ℕ) : Change q (q.setClient k ((q.clients k).respond msgid))
  | cleanSession (q : Sending) (k : ℕ) :
      Change q (q.setClient k (mqttAsyncCleanSession (q.clients k)))

abbrev Changes : Sending → Sending → Prop := Relation.ReflTransGen Change

section Changes

variable {q q' q₁ : Sending} {k : ℕ} {command : QueuedCommand}

theorem setClient_clients (q : Sending) (k j : ℕ) (m : MqttAsyncs) :
    (q.setClient k m).clients j = if j = k then m else q.clients j := by
  unfold Sending.setClient
  exact Function.update_apply _ _ _ _

theorem assignLoop_unused {used : ℕ → Bool} {start rounds msgid id : ℕ}
    (h : assignLoop used start rounds msgid = some id) (hid : id ≠ 0) : used id = false := by
  induction rounds generalizing msgid with
  | zero => exact nomatch h
  | succ rounds ih =>
      unfold assignLoop at h
      split at h
      · split at h
        · exact absurd (Option.some.inj h).symm hid
        · exact ih h
      · rename_i hunused
        rw [← Option.some.inj h]
        exact Bool.eq_false_iff.mpr hunused

theorem assignMsgId_fresh {msgid : ℕ} (h : mqttAsyncAssignMsgId q k = some (msgid, q'))
    (hid : msgid ≠ 0) : q'.FreshId k msgid := by
  obtain ⟨id, hloop, heq⟩ := Option.map_eq_some_iff.mp h
  split at heq
  · exact absurd (Prod.mk.inj heq).1.symm hid
  · obtain ⟨rfl, rfl⟩ := Prod.mk.inj heq
    refine ⟨hid, ?_, ?_⟩
    · rw [setClient_clients, if_pos rfl]
    · rw [setClient_clients, if_pos rfl]
      exact assignLoop_unused hloop hid

theorem changes_sendMsgId {msgid : ℕ} {qos : ℤ} (h : sendMsgId q k qos = some (msgid, q')) :
    Changes q q' ∧ (¬(0 < qos ∧ msgid = 0) → qos ≤ 0 ∧ msgid = 0 ∨ q'.FreshId k msgid) := by
  unfold sendMsgId at h
  split at h
  · rename_i hqos
    refine ⟨.single (.assign h), fun hid => .inr (assignMsgId_fresh h fun hzero => ?_)⟩
    exact hid ⟨hqos, hzero⟩
  · rename_i hqos
    obtain ⟨rfl, rfl⟩ := Prod.mk.inj (Option.some.inj h)
    exact ⟨.refl, fun _ => .inl ⟨Int.not_lt.mp hqos, rfl⟩⟩

theorem changes_requestMany {topics : List (List UInt8 × ℤ)}
    {optionRefused : MqttAsyncs → Option Bool} {type : CommandType}
    (htype : ∀ token, (QueuedCommand.mk k token type).isPublish = false) :
    Leaves (requestMany q k topics optionRefused type) (Changes q) := by
  refine leaves_requestMany .refl fun msgid q' h => ?_
  have hassign : Changes q q' := .single (.assign h)
  refine ⟨hassign, fun hid => hassign.tail (.add ⟨fun hpublish => ?_, fun _ => .inr ?_⟩)⟩
  · exact absurd hpublish (Bool.eq_false_iff.mp (htype msgid))
  · exact assignMsgId_fresh h hid

theorem isConnection_of_goesFirst (h : command.goesFirst = true) :
    command.isConnection = true := by
  obtain ⟨client, token, type⟩ := command
  cases type with
  | connect => rfl
  | disconnect internal => rfl
  | _ => exact nomatch h

theorem isPublish_of_isConnection (h : command.isConnection = true) :
    command.isPublish = false := by
  obtain ⟨client, token, type⟩ := command
  cases type with
  | connect => rfl
  | disconnect internal => rfl
  | _ => exact nomatch h

theorem answered_of_isConnection (h : command.isConnection = true) :
    command.answered = false := by
  obtain ⟨client, token, type⟩ := command
  cases type with
  | connect => rfl
  | disconnect internal => rfl
  | _ => exact nomatch h

theorem changes_addConnection (q : Sending) (h : command.isConnection = true) :
    Changes q (mqttAsyncAddCommand q command).2 := by
  refine .single (.add ⟨fun hpublish => ?_, fun hnot => ?_⟩)
  · exact absurd hpublish (Bool.eq_false_iff.mp (isPublish_of_isConnection h))
  · exact absurd h (Bool.eq_false_iff.mp hnot)

theorem changes_disconnect1 (q : Sending) (k : ℕ) (internal : Bool) :
    Changes q (mqttAsyncDisconnect1 q k internal).2 := by
  have hadd : ∀ q', Changes q q' → Changes q
      (if !(q'.clients k).connection.connected then (ReturnCode.disconnected, q')
        else mqttAsyncAddCommand q'
          { client := k, token := 0, type := .disconnect internal }).2 := by
    intro q' h'
    split
    · exact h'
    · exact h'.trans (changes_addConnection q' rfl)
  cases internal with
  | true => exact hadd q .refl
  | false => exact hadd _ (.single (.link q k _))

theorem changes_afterSocketError (q : Sending) (command : QueuedCommand) (moreToTry : Bool) :
    Changes q (afterSocketError q command moreToTry) := by
  unfold afterSocketError
  split
  · rename_i hconnect
    have hagain : Changes q ((mqttAsyncDisconnect1 q command.client false).2.setShouldBeConnected
        command.client true) :=
      (changes_disconnect1 q command.client false).tail (.link _ _ _)
    have hconnection : command.isConnection = true := by
      unfold QueuedCommand.isConnection
      rw [hconnect]
    dsimp only
    split
    · exact hagain.trans (changes_addConnection _ hconnection)
    · exact hagain
  · exact .refl
  · exact changes_disconnect1 q command.client true

theorem nextCommand_spec {clients : ℕ → MqttAsyncs} {ignored : List ℕ}
    {l rest : List QueuedCommand} (h : nextCommand clients ignored l = some (command, rest)) :
    command.client ∉ ignored ∧ mayStart (clients command.client) command = true ∧
      TakesFirst QueuedCommand.client command l rest := by
  induction l generalizing ignored rest with
  | nil => exact nomatch h
  | cons cmd l ih =>
      unfold nextCommand at h
      split at h
      · rename_i hignored
        obtain ⟨w, hw, heq⟩ := Option.map_eq_some_iff.mp h
        obtain ⟨rfl, rfl⟩ := Prod.mk.inj heq
        obtain ⟨hnot, hstart, htakes⟩ := ih hw
        refine ⟨hnot, hstart, .cons (fun heq => hnot ?_) htakes⟩
        rw [← heq]
        exact List.contains_iff_mem.mp hignored
      · rename_i hignored
        split at h
        · rename_i hstart
          obtain ⟨rfl, rfl⟩ := Prod.mk.inj (Option.some.inj h)
          exact ⟨fun hmem => hignored (List.contains_iff_mem.mpr hmem), hstart, .head l⟩
        · obtain ⟨w, hw, heq⟩ := Option.map_eq_some_iff.mp h
          obtain ⟨rfl, rfl⟩ := Prod.mk.inj heq
          obtain ⟨hnot, hstart, htakes⟩ := ih hw
          have hne : cmd.client ≠ w.1.client := fun heq =>
            hnot (List.mem_append_right ignored (List.mem_singleton.mpr heq.symm))
          exact ⟨fun hmem => hnot (List.mem_append_left _ hmem), hstart, .cons hne htakes⟩

theorem changes_processCommand (q : Sending) (rc : WriteResult) (moreToTry : Bool) :
    Changes q (mqttAsyncProcessCommand q rc moreToTry) := by
  unfold mqttAsyncProcessCommand
  split
  · exact .refl
  · rename_i command rest hnext
    obtain ⟨-, hstart, htakes⟩ := nextCommand_spec hnext
    have htaken : Changes q (takeUp q command rest rc) := .single (.start rc hstart htakes)
    split
    · exact htaken.trans (changes_afterSocketError _ command moreToTry)
    · exact htaken

theorem changes_step (q : Sending) (e : QueueEvent) : Changes q (queueStep q e) := by
  cases e with
  | send k destinationName payload qos retained response =>
      refine leaves_result .refl (leaves_send .refl fun msgid q' h => ?_)
      obtain ⟨hassign, hfresh⟩ := changes_sendMsgId h
      refine ⟨hassign, fun hid hroom => hassign.tail (.add ⟨fun _ => hroom, fun _ => ?_⟩)⟩
      rcases hfresh hid with ⟨hqos, hzero⟩ | hfresh
      · refine .inl ⟨decide_eq_false ?_, hzero⟩
        rw [Int.toNat_of_nonpos hqos]
        exact Nat.lt_irrefl 0
      · exact .inr hfresh
  | subscribeMany k topics response => exact leaves_result .refl (changes_requestMany fun _ => rfl)
  | unsubscribeMany k topics response =>
      exact leaves_result .refl (changes_requestMany fun _ => rfl)
  | connect k => exact changes_addConnection q rfl
  | disconnect k internal => exact changes_disconnect1 q k internal
  | process rc moreToTry => exact changes_processCommand q rc moreToTry
  | link k connection => exact .single (.link q k connection)
  | acknowledged k msgid => exact .single (.acknowledge q k msgid)
  | responded k msgid => exact .single (.respond q k msgid)
  | cleanSession k => exact .single (.cleanSession q k)

theorem queue_invariant {P : Sending → Prop} (hchange : ∀ q q', P q → Change q q' → P q')
    (h : P q) (events : List QueueEvent) : P (run queueStep q events) := by
  apply run_invariant h
  intro q e hq
  have hchanges := changes_step q e
  generalize queueStep q e = q' at hchanges
  induction hchanges with
  | refl => exact hq
  | tail _ hlast ih => exact hchange _ _ ih hlast

end Changes

end CatDect.Mqtt
