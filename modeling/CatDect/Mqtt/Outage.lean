import CatDect.Mqtt.CommandOrder
import Mathlib.Data.List.DropRight

/-!
# Clients without a connection

While a client has no connection its messages wait; of more than there is room for, the
oldest are kept, or the newest.  The other clients are not held up: a command whose client is
ready is taken up after those before it at the latest.
-/

namespace CatDect.Mqtt

open CatDect.Support

/-! ## What is kept -/

def Sending.waiting (q : Sending) (k : ℕ) : List QueuedCommand := q.commands.filter (publishFor k)

def CreateOptions.keep (o : CreateOptions) (l : List QueuedCommand) : List QueuedCommand :=
  if o.KeepsOldest then l.take o.maxBufferedMessages.toNat
  else l.rtake o.maxBufferedMessages.toNat

structure Disconnected (k : ℕ) (o : CreateOptions) (q : Sending) : Prop where
  connected : (q.clients k).connection.connected = false
  shouldBeConnected : (q.clients k).connection.shouldBeConnected = true
  createOptions : (q.clients k).createOptions = some o

/-- What the client sends is acceptable, and needs no message id. -/
def SentInOutage (k : ℕ) (q : Sending) : QueueEvent → Prop
  | .send j destinationName _ qos _ response => j = k → qos = 0 ∧
      utf8ValidateString (some destinationName) = some true ∧
        responseRefused response (q.clients k) = false
  | _ => True

def messageOf (k : ℕ) : QueueEvent → Option QueuedCommand
  | .send j destinationName payload qos retained _ =>
      if j = k then
        some
          { client := k, token := 0, type := .publish destinationName payload qos.toNat retained }
      else none
  | _ => none

section Outage

variable {q q' : Sending} {k : ℕ} {o : CreateOptions} {command : QueuedCommand}

theorem rtake_eq_drop {α : Type} (l : List α) (n : ℕ) : l.rtake n = l.drop (l.length - n) := rfl

theorem keep_append_keep (o : CreateOptions) (l : List QueuedCommand) (c : QueuedCommand) :
    o.keep (o.keep l ++ [c]) = o.keep (l ++ [c]) := by
  unfold CreateOptions.keep
  generalize o.maxBufferedMessages.toNat = n
  split
  · rcases Nat.le_total l.length n with hle | hge
    · rw [List.take_of_length_le hle]
    · have hlen : (l.take n).length = n := List.length_take_of_le hge
      rw [List.take_append_of_le_length hlen.ge, List.take_append_of_le_length hge,
        List.take_take, Nat.min_self]
  · rw [rtake_eq_drop, rtake_eq_drop, rtake_eq_drop, List.length_append, List.length_append,
      List.length_drop, List.length_singleton]
    rcases Nat.le_total l.length n with hle | hge
    · have hzero : l.length - n = 0 := Nat.sub_eq_zero_of_le hle
      rw [hzero, List.drop_zero, Nat.sub_zero]
    · have hone : l.length - (l.length - n) + 1 - n = 1 := by omega
      have hnext : l.length + 1 - n = l.length - n + 1 := by omega
      have hle : l.length - n ≤ l.length := Nat.sub_le _ _
      rw [hone, hnext, ← List.drop_drop, List.drop_append_of_le_length hle]

theorem sameQueue_sendMsgId {msgid : ℕ} {qos : ℤ}
    (h : sendMsgId q k qos = some (msgid, q')) : SameQueue q q' := by
  unfold sendMsgId at h
  split at h
  · exact sameQueue_assignMsgId h
  · obtain ⟨-, rfl⟩ := Prod.mk.inj (Option.some.inj h)
    exact sameQueue_refl q

theorem waiting_addCommand_other (h : command.isPublish = true → command.client ≠ k) :
    (mqttAsyncAddCommand q command).2.waiting k = q.waiting k := by
  have hnot : ¬publishFor k command = true := by
    intro hfor
    obtain ⟨hclient, hpublish⟩ := publishFor_iff.mp hfor
    exact h hpublish hclient
  have happend : (q.commands ++ [command]).filter (publishFor k) = q.waiting k := by
    rw [List.filter_append, List.filter_cons_of_neg hnot]
    exact List.append_nil _
  unfold mqttAsyncAddCommand
  split
  · split
    · rfl
    · exact List.filter_cons_of_neg hnot
  · split
    · rename_i hpublish
      unfold countPublish
      dsimp only
      split
      · -- the oldest message of another client is deleted
        obtain ⟨oldest, before, after, -, holdest, hsplit, herase⟩ := List.exists_of_eraseP
          (List.mem_append_right q.commands (List.mem_singleton_self command))
          (publishFor_iff.mpr ⟨rfl, hpublish⟩)
        have hother : ¬publishFor k oldest = true := by
          intro hfor
          have howner := (publishFor_iff.mp holdest).1
          exact h hpublish (howner.symm.trans (publishFor_iff.mp hfor).1)
        rw [hsplit, List.filter_append, List.filter_cons_of_neg hother] at happend
        show List.filter _ (List.eraseP _ _) = _
        rw [herase, List.filter_append]
        exact happend
      · exact happend
    · exact happend

theorem waiting_addCommand_own (q : Sending) (hpublish : command.isPublish = true) :
    (mqttAsyncAddCommand q command).2.waiting command.client =
      if (q.clients command.client).bufferFull then (q.waiting command.client ++ [command]).tail
      else q.waiting command.client ++ [command] := by
  have happend : (q.commands ++ [command]).filter (publishFor command.client) =
      q.waiting command.client ++ [command] := by
    rw [List.filter_append, List.filter_cons_of_pos (publishFor_iff.mpr ⟨rfl, hpublish⟩)]
    rfl
  have hlast : ¬command.goesFirst = true :=
    Bool.eq_false_iff.mp (publish_not_goesFirst hpublish)
  unfold mqttAsyncAddCommand
  rw [if_neg hlast]
  dsimp only
  rw [if_pos hpublish]
  unfold countPublish
  dsimp only
  split
  · show List.filter _ (List.eraseP _ _) = _
    rw [filter_eraseP, happend]
  · exact happend

theorem waiting_takeUp (h : Disconnected k o q) {rest : List QueuedCommand}
    (hnext : command.client ∉ [] ∧ mayStart (q.clients command.client) command = true ∧
      TakesFirst QueuedCommand.client command q.commands rest) (rc : WriteResult) :
    (takeUp q command rest rc).waiting k = q.waiting k := by
  obtain ⟨-, hstart, htakes⟩ := hnext
  have hnot : ¬publishFor k command = true := by
    intro hfor
    obtain ⟨hclient, hpublish⟩ := publishFor_iff.mp hfor
    have hconnection : command.isConnection = false := by
      by_contra hconnection
      rw [Bool.not_eq_false] at hconnection
      rw [isPublish_of_isConnection hconnection] at hpublish
      exact absurd hpublish Bool.false_ne_true
    rw [mayStart, hconnection, hclient, h.connected] at hstart
    exact absurd hstart (by simp)
  have hfilter := htakes.filter (p := publishFor k) fun b _ hcommand => absurd hcommand hnot
  rw [List.filter_cons_of_neg hnot] at hfilter
  exact hfilter.symm

theorem waiting_step (h : Disconnected k o q) (e : QueueEvent) (he : messageOf k e = none) :
    (queueStep q e).waiting k = q.waiting k := by
  have hrequest : ∀ (j : ℕ) (topics : List (List UInt8 × ℤ))
      (optionRefused : MqttAsyncs → Option Bool) (type : CommandType),
      (∀ token, (QueuedCommand.mk j token type).isPublish = false) →
      Leaves (requestMany q j topics optionRefused type) fun q' => q'.waiting k = q.waiting k := by
    intro j topics optionRefused type htype
    refine leaves_requestMany rfl fun msgid q' hassign => ?_
    have hwait : q'.waiting k = q.waiting k :=
      congrArg (List.filter (publishFor k)) (sameQueue_assignMsgId hassign).commands
    refine ⟨hwait, fun _ => (waiting_addCommand_other fun hpublish => ?_).trans hwait⟩
    exact absurd hpublish (Bool.eq_false_iff.mp (htype msgid))
  have hdisconnect : ∀ (q' : Sending) (j : ℕ) (internal : Bool),
      (mqttAsyncDisconnect1 q' j internal).2.waiting k = q'.waiting k := by
    intro q' j internal
    have hadd : ∀ q'' : Sending, q''.waiting k = q'.waiting k →
        (if !(q''.clients j).connection.connected then (ReturnCode.disconnected, q'')
          else mqttAsyncAddCommand q''
            { client := j, token := 0, type := .disconnect internal }).2.waiting k =
          q'.waiting k := by
      intro q'' hq''
      split
      · exact hq''
      · refine (waiting_addCommand_other fun hpublish => ?_).trans hq''
        exact absurd hpublish Bool.false_ne_true
    cases internal with
    | true => exact hadd q' rfl
    | false => exact hadd _ rfl
  cases e with
  | send j destinationName payload qos retained response =>
      have hj : j ≠ k := by
        intro hj
        rw [messageOf, if_pos hj] at he
        exact nomatch he
      refine leaves_result (P := fun q' => q'.waiting k = q.waiting k) rfl
        (leaves_send rfl fun msgid q' hassign => ?_)
      have hwait : q'.waiting k = q.waiting k :=
        congrArg (List.filter (publishFor k)) (sameQueue_sendMsgId hassign).commands
      exact ⟨hwait, fun _ _ => (waiting_addCommand_other fun _ => hj).trans hwait⟩
  | subscribeMany j topics response =>
      exact leaves_result (P := fun q' => q'.waiting k = q.waiting k) rfl
        (hrequest j _ _ _ fun _ => rfl)
  | unsubscribeMany j topics response =>
      exact leaves_result (P := fun q' => q'.waiting k = q.waiting k) rfl
        (hrequest j _ _ _ fun _ => rfl)
  | connect j =>
      show (mqttAsyncAddCommand q { client := j, token := 0, type := .connect }).2.waiting k = _
      exact waiting_addCommand_other fun hpublish => absurd hpublish Bool.false_ne_true
  | disconnect j internal => exact hdisconnect q j internal
  | process rc moreToTry =>
      show (mqttAsyncProcessCommand q rc moreToTry).waiting k = q.waiting k
      unfold mqttAsyncProcessCommand
      split
      · rfl
      · rename_i command rest hnext
        have htaken := waiting_takeUp h (nextCommand_spec hnext) rc
        split
        · refine Eq.trans ?_ htaken
          unfold afterSocketError
          split
          · rename_i hconnect
            dsimp only
            split
            · refine Eq.trans (waiting_addCommand_other fun hpublish => ?_)
                (hdisconnect _ command.client false)
              unfold QueuedCommand.isPublish at hpublish
              rw [hconnect] at hpublish
              exact absurd hpublish Bool.false_ne_true
            · exact hdisconnect _ command.client false
          · rfl
          · exact hdisconnect _ command.client true
        · exact htaken
  | link j connection => rfl
  | acknowledged j msgid => rfl
  | responded j msgid => rfl
  | cleanSession j => rfl

theorem send_result (h : Disconnected k o q) (hsend : o.sendWhileDisconnected = true)
    {destinationName payload : List UInt8} {retained : Bool} {response : Option ResponseOptions}
    (htext : utf8ValidateString (some destinationName) = some true)
    (hresponse : responseRefused response (q.clients k) = false) :
    mqttAsyncSend q k destinationName payload 0 retained response = some
      (if newestRefused (q.clients k) then (.maxBufferedMessages, q)
        else mqttAsyncAddCommand q
          { client := k, token := 0, type := .publish destinationName payload 0 retained }) := by
  have hallowed : sendRefused (q.clients k) = false := by
    simp [sendRefused, h.createOptions, hsend, h.shouldBeConnected]
  have hid : sendMsgId q k 0 = some (0, q) := rfl
  cases hrefused : newestRefused (q.clients k) with
  | true => simp [mqttAsyncSend, hallowed, htext, hid, hrefused]
  | false => simp [mqttAsyncSend, hallowed, htext, hid, hrefused, hresponse]

theorem waiting_send (h : Disconnected k o q) (horderly : Orderly q)
    (hsend : o.sendWhileDisconnected = true) {destinationName payload : List UInt8}
    {retained : Bool} {response : Option ResponseOptions}
    (htext : utf8ValidateString (some destinationName) = some true)
    (hresponse : responseRefused response (q.clients k) = false) :
    (queueStep q (.send k destinationName payload 0 retained response)).waiting k =
      o.keep (q.waiting k ++
        [{ client := k, token := 0, type := .publish destinationName payload 0 retained }]) := by
  have hstep : queueStep q (.send k destinationName payload 0 retained response) =
      (if newestRefused (q.clients k) then (ReturnCode.maxBufferedMessages, q)
        else mqttAsyncAddCommand q
          { client := k, token := 0, type := .publish destinationName payload 0 retained }).2 := by
    show ((mqttAsyncSend _ _ _ _ _ _ _).map Prod.snd).getD q = _
    rw [send_result h hsend htext hresponse]
    rfl
  rw [hstep]
  have hlen : (q.clients k).noBufferedMessages = ((q.waiting k).length : ℤ) := by
    rw [horderly.counted k, Sending.waiting, List.countP_eq_length_filter]
  have hbound := horderly.bounded k o h.createOptions
  have hfull : (q.clients k).bufferFull =
      decide (o.maxBufferedMessages.toNat ≤ (q.waiting k).length) := by
    rw [MqttAsyncs.bufferFull, h.createOptions, Option.any_some, hlen]
    congr 1
    rw [Int.toNat_le]
  let message : QueuedCommand := ⟨k, 0, .publish destinationName payload 0 retained⟩
  have hpublish : message.isPublish = true := rfl
  have hown := waiting_addCommand_own q hpublish
  rw [hlen] at hbound
  unfold CreateOptions.keep
  by_cases hkeeps : o.KeepsOldest
  · rw [newestRefused_eq h.createOptions hkeeps, if_pos hkeeps]
    by_cases hle : o.maxBufferedMessages.toNat ≤ (q.waiting k).length
    · rw [hfull, if_pos (decide_eq_true hle), List.take_append_of_le_length hle,
        List.take_of_length_le (by omega)]
    · have hroom : (q.clients k).bufferFull = false := by
        rw [hfull]
        exact decide_eq_false hle
      rw [hroom, if_neg Bool.false_ne_true] at hown
      rw [hroom, if_neg Bool.false_ne_true, hown, List.take_of_length_le]
      rw [List.length_append, List.length_singleton]
      omega
  · rw [newestRefused_eq_false h.createOptions hkeeps, if_neg hkeeps,
      if_neg Bool.false_ne_true, hown, hfull, rtake_eq_drop, List.length_append,
      List.length_singleton]
    by_cases hle : o.maxBufferedMessages.toNat ≤ (q.waiting k).length
    · have hone : (q.waiting k).length + 1 - o.maxBufferedMessages.toNat = 1 := by omega
      rw [if_pos (decide_eq_true hle), hone, List.drop_one]
    · have hzero : (q.waiting k).length + 1 - o.maxBufferedMessages.toNat = 0 := by omega
      rw [if_neg (by simpa using hle), hzero, List.drop_zero]

theorem waiting_step_message (h : Disconnected k o q) (horderly : Orderly q)
    (hsend : o.sendWhileDisconnected = true) {e : QueueEvent} (hvalid : SentInOutage k q e)
    (he : messageOf k e = some command) :
    (queueStep q e).waiting k = o.keep (q.waiting k ++ [command]) := by
  cases e with
  | send j destinationName payload qos retained response =>
      rw [messageOf] at he
      split at he
      · rename_i hj
        subst hj
        obtain ⟨rfl, htext, hresponse⟩ := hvalid rfl
        rw [← Option.some.inj he]
        exact waiting_send h horderly hsend htext hresponse
      · exact nomatch he
  | _ => exact nomatch he

theorem keep_of_bounded (horderly : Orderly q) (ho : (q.clients k).createOptions = some o) :
    o.keep (q.waiting k) = q.waiting k := by
  have hlen : (q.waiting k).length ≤ o.maxBufferedMessages.toNat := by
    have hbound := horderly.bounded k o ho
    rw [horderly.counted k, List.countP_eq_length_filter] at hbound
    show (List.filter _ _).length ≤ _
    omega
  unfold CreateOptions.keep
  split
  · exact List.take_of_length_le hlen
  · rw [rtake_eq_drop, Nat.sub_eq_zero_of_le hlen, List.drop_zero]

end Outage

/-- **What a buffer keeps.**  Over a run in which the client never has its connection, and
however the other clients send and receive meanwhile: of the messages that waited and those
sent since, the first are kept up to the size of the buffer, or the last. -/
theorem outage_keeps (clients : ℕ → Option CreateOptions × ℕ) (before : List QueueEvent)
    (k : ℕ) (o : CreateOptions) (hsend : o.sendWhileDisconnected = true)
    (events : List QueueEvent)
    (hdown : Throughout queueStep (run queueStep (.init clients) before) (Disconnected k o) events)
    (hvalid : Along queueStep (run queueStep (.init clients) before) (SentInOutage k) events) :
    (run queueStep (.init clients) (before ++ events)).waiting k =
      o.keep ((run queueStep (.init clients) before).waiting k ++
        events.filterMap (messageOf k)) := by
  induction events using List.reverseRecOn with
  | nil =>
      have hfirst := hdown [] List.nil_prefix
      rw [List.append_nil, List.filterMap_nil, List.append_nil]
      exact (keep_of_bounded (orderly_run clients before) hfirst.createOptions).symm
  | append_singleton events e ih =>
      obtain ⟨hdown, -⟩ := throughout_append_singleton.mp hdown
      obtain ⟨hvalid, hlast⟩ := along_append_singleton.mp hvalid
      have hnow := hdown events (List.prefix_refl events)
      have horderly := orderly_run clients (before ++ events)
      rw [← run_append] at hnow hlast
      rw [← List.append_assoc, run_append_singleton, List.filterMap_append]
      cases he : messageOf k e with
      | none =>
          have hnone : [e].filterMap (messageOf k) = [] := by simp [he]
          rw [hnone, List.append_nil, waiting_step hnow e he]
          exact ih hdown hvalid
      | some command =>
          have hsome : [e].filterMap (messageOf k) = [command] := by simp [he]
          rw [hsome, waiting_step_message hnow horderly hsend hlast he, ih hdown hvalid,
            keep_append_keep, List.append_assoc]

def bufferOfOne : CreateOptions where
  structVersion := 2
  sendWhileDisconnected := true
  maxBufferedMessages := 1
  room := Int.one_pos
  allowDisconnectedSendAtAnyTime := false
  deleteOldestMessages := false

def wantsConnection : List QueueEvent := [.link 0 ⟨false, true, false, true, 10⟩]

def twoMessages : List QueueEvent := [.send 0 [97] [1] 0 false none, .send 0 [97] [2] 0 false none]

theorem outage_keeps_bufferOfOne :
    (run queueStep (.init fun _ => (some bufferOfOne, 5)) (wantsConnection ++ twoMessages)).waiting
        0 = [⟨0, 0, .publish [97] [1] 0 false⟩] := by
  refine outage_keeps _ wantsConnection 0 bufferOfOne rfl twoMessages ?_ ?_
  · simp only [twoMessages, throughout_cons, throughout_nil]
    exact ⟨⟨rfl, rfl, rfl⟩, ⟨rfl, rfl, rfl⟩, ⟨rfl, rfl, rfl⟩⟩
  · simp only [twoMessages, along_cons]
    exact ⟨fun _ => ⟨rfl, by decide, rfl⟩, fun _ => ⟨rfl, by decide, rfl⟩, along_nil⟩

/-! ## Nobody is held up -/

def QueueEvent.mayInsert : QueueEvent → Bool
  | .connect _ => true
  | .disconnect _ internal => internal
  | .process rc _ => decide (rc = .socketError)
  | _ => false

def QueueEvent.isProcess : QueueEvent → Bool
  | .process _ _ => true
  | _ => false

/-- The client `m` of the command may start it, and those of its commands that are in `own`. -/
def ReadyFor (own : List QueuedCommand) (c : QueuedCommand) (m : MqttAsyncs) : Prop :=
  mayStart m c = true ∧ ∀ b ∈ own, b.client = c.client → mayStart m b = true

instance (own : List QueuedCommand) (c : QueuedCommand) (m : MqttAsyncs) :
    Decidable (ReadyFor own c m) := inferInstanceAs (Decidable (_ ∧ _))

/-- At most `n` commands are before the command, and those of its client are of the
connection or in `own`. -/
def Due (own : List QueuedCommand) (c : QueuedCommand) (n : ℕ) (q : Sending) : Prop :=
  ∃ before after, q.commands = before ++ c :: after ∧ before.length ≤ n ∧
    ∀ b ∈ before, b.client = c.client → b.isConnection = true ∨ b ∈ own

/-- A command like `c` has been taken up or deleted since. -/
def Gone (c : QueuedCommand) (q q' : Sending) : Prop :=
  q.started.count c < q'.started.count c ∨ q.dropped.count c < q'.dropped.count c

section Due

variable {q q' q₀ : Sending} {c command : QueuedCommand} {own : List QueuedCommand} {n : ℕ}

theorem mayStart_of_isConnection (m : MqttAsyncs) (h : command.isConnection = true) :
    mayStart m command = true := by
  simp [mayStart, h, answered_of_isConnection h]

theorem nextCommand_due {clients : ℕ → MqttAsyncs} (hready : ReadyFor own c (clients c.client))
    {ignored : List ℕ} (hignored : c.client ∉ ignored) {before : List QueuedCommand}
    (hbefore : ∀ b ∈ before, b.client = c.client → b.isConnection = true ∨ b ∈ own)
    (after : List QueuedCommand) :
    ∃ command rest, nextCommand clients ignored (before ++ c :: after) = some (command, rest) ∧
      (command = c ∧ rest = before ++ after ∨
        ∃ earlier later, before = earlier ++ command :: later ∧
          rest = earlier ++ later ++ c :: after) := by
  induction before generalizing ignored with
  | nil =>
      refine ⟨c, after, ?_, .inl ⟨rfl, rfl⟩⟩
      rw [List.nil_append, nextCommand, if_neg (by simpa using hignored), if_pos hready.1]
  | cons b before ih =>
      have htail := fun b' hb' => hbefore b' (List.mem_cons_of_mem b hb')
      rw [List.cons_append, nextCommand]
      split
      · obtain ⟨command, rest, hnext, hcases⟩ := ih hignored htail
        refine ⟨command, b :: rest, by rw [hnext]; rfl, ?_⟩
        rcases hcases with ⟨rfl, rfl⟩ | ⟨earlier, later, rfl, rfl⟩
        · exact .inl ⟨rfl, rfl⟩
        · exact .inr ⟨b :: earlier, later, rfl, rfl⟩
      · split
        · exact ⟨b, before ++ c :: after, rfl, .inr ⟨[], before, rfl, rfl⟩⟩
        · rename_i hnot
          have hother : c.client ∉ ignored ++ [b.client] := by
            intro hmem
            rcases List.mem_append.mp hmem with hold | hnew
            · exact hignored hold
            · have hclient : b.client = c.client := (List.mem_singleton.mp hnew).symm
              rw [hclient] at hnot
              rcases hbefore b List.mem_cons_self hclient with hconnection | hown
              · exact hnot (mayStart_of_isConnection _ hconnection)
              · exact hnot (hready.2 b hown hclient)
          obtain ⟨command, rest, hnext, hcases⟩ := ih hother htail
          refine ⟨command, b :: rest, by rw [hnext]; rfl, ?_⟩
          rcases hcases with ⟨rfl, rfl⟩ | ⟨earlier, later, rfl, rfl⟩
          · exact .inl ⟨rfl, rfl⟩
          · exact .inr ⟨b :: earlier, later, rfl, rfl⟩

theorem Due.mono {m : ℕ} (h : Due own c n q) (hle : n ≤ m) : Due own c m q := by
  obtain ⟨before, after, hsplit, hlen, hbefore⟩ := h
  exact ⟨before, after, hsplit, hlen.trans hle, hbefore⟩

theorem Due.of_commands (h : Due own c n q) (hsame : q'.commands = q.commands) :
    Due own c n q' := by
  obtain ⟨before, after, hsplit, hlen, hbefore⟩ := h
  exact ⟨before, after, hsame.trans hsplit, hlen, hbefore⟩

theorem Due.insertFirst (h : Due own c n q) (hconnection : command.isConnection = true) :
    Due own c (n + 1) { q with commands := command :: q.commands } := by
  obtain ⟨before, after, hsplit, hlen, hbefore⟩ := h
  refine ⟨command :: before, after, congrArg (List.cons command) hsplit,
    Nat.succ_le_succ hlen, fun b hb => ?_⟩
  rcases List.mem_cons.mp hb with rfl | hb
  · exact fun _ => .inl hconnection
  · exact hbefore b hb

theorem Due.append (h : Due own c n q) (command : QueuedCommand) :
    Due own c n (q.append command) := by
  obtain ⟨before, after, hsplit, hlen, hbefore⟩ := h
  refine ⟨before, after ++ [command], ?_, hlen, hbefore⟩
  show q.commands ++ [command] = _
  rw [hsplit, List.append_assoc, List.cons_append]

theorem Due.deleteOldest {p : QueuedCommand → Bool} (h : Due own c n q) :
    Due own c n
        { q with
          commands := q.commands.eraseP p
          dropped := q.dropped ++ (q.commands.find? p).toList } ∨
      Gone c q
        { q with
          commands := q.commands.eraseP p
          dropped := q.dropped ++ (q.commands.find? p).toList } := by
  obtain ⟨before, after, hsplit, hlen, hbefore⟩ := h
  by_cases hearlier : ∃ b ∈ before, p b = true
  · obtain ⟨b, hb, hpb⟩ := hearlier
    refine .inl ⟨before.eraseP p, after, ?_, (List.length_eraseP_le).trans hlen, fun b' hb' => ?_⟩
    · show q.commands.eraseP p = _
      rw [hsplit, List.eraseP_append_left hpb _ hb]
    · exact hbefore b' (List.mem_of_mem_eraseP hb')
  · have hnone : ∀ b ∈ before, ¬p b = true := fun b hb hpb => hearlier ⟨b, hb, hpb⟩
    by_cases hc : p c = true
    · refine .inr (.inr ?_)
      show q.dropped.count c < (q.dropped ++ (q.commands.find? p).toList).count c
      rw [hsplit, List.find?_append, List.find?_eq_none.mpr hnone, List.find?_cons_of_pos hc,
        List.count_append]
      show _ < _ + [c].count c
      rw [List.count_singleton_self]
      exact Nat.lt_succ_self _
    · refine .inl ⟨before, after.eraseP p, ?_, hlen, hbefore⟩
      show q.commands.eraseP p = _
      rw [hsplit, List.eraseP_append_right _ hnone, List.eraseP_cons_of_neg hc]

theorem Due.setClient (h : Due own c n q) (k : ℕ) (m : MqttAsyncs) :
    Due own c n (q.setClient k m) := h

theorem Due.addLast (h : Due own c n q) (hlast : command.goesFirst = false) :
    Due own c n (mqttAsyncAddCommand q command).2 ∨
      Gone c q (mqttAsyncAddCommand q command).2 := by
  unfold mqttAsyncAddCommand
  rw [if_neg (Bool.eq_false_iff.mp hlast)]
  dsimp only
  split
  · unfold countPublish
    dsimp only
    split
    · exact (h.append command).deleteOldest
    · exact .inl ((h.append command).setClient command.client _)
  · exact .inl (h.append command)

theorem Due.addFirst (h : Due own c n q) (hfirst : command.goesFirst = true) :
    Due own c (n + 1) (mqttAsyncAddCommand q command).2 := by
  unfold mqttAsyncAddCommand
  rw [if_pos hfirst]
  split
  · exact h.mono (Nat.le_succ n)
  · exact h.insertFirst (isConnection_of_goesFirst hfirst)

/-! ### What has been taken up or deleted -/

theorem addCommand_started (q : Sending) (command : QueuedCommand) :
    (mqttAsyncAddCommand q command).2.started = q.started := by
  unfold mqttAsyncAddCommand
  split
  · split
    · rfl
    · rfl
  · split
    · unfold countPublish
      dsimp only
      split
      · rfl
      · rfl
    · rfl

theorem count_le_of_change (c : QueuedCommand) (h : Change q q') :
    q.started.count c ≤ q'.started.count c ∧ q.dropped.count c ≤ q'.dropped.count c := by
  cases h with
  | assign hassign =>
      have hsame := sameQueue_assignMsgId hassign
      rw [hsame.started, hsame.dropped]
      exact ⟨Nat.le_refl _, Nat.le_refl _⟩
  | add hadd =>
      rw [addCommand_started]
      refine ⟨Nat.le_refl _, ?_⟩
      rcases addCommand_dropped q _ with hsame | ⟨-, -, oldest, -, hdropped⟩
      · rw [hsame]
      · rw [hdropped, List.count_append]
        exact Nat.le_add_right _ _
  | start rc hstart htakes =>
      refine ⟨?_, Nat.le_refl _⟩
      show q.started.count c ≤ (q.started ++ [_]).count c
      rw [List.count_append]
      exact Nat.le_add_right _ _
  | _ => exact ⟨Nat.le_refl _, Nat.le_refl _⟩

theorem count_le_of_changes (c : QueuedCommand) (h : Changes q q') :
    q.started.count c ≤ q'.started.count c ∧ q.dropped.count c ≤ q'.dropped.count c := by
  induction h with
  | refl => exact ⟨Nat.le_refl _, Nat.le_refl _⟩
  | tail _ hlast ih =>
      have hle := count_le_of_change c hlast
      exact ⟨ih.1.trans hle.1, ih.2.trans hle.2⟩

theorem Gone.changes (h : Gone c q₀ q) (hchanges : Changes q q') : Gone c q₀ q' := by
  have hle := count_le_of_changes c hchanges
  rcases h with hstarted | hdropped
  · exact .inl (hstarted.trans_le hle.1)
  · exact .inr (hdropped.trans_le hle.2)

theorem Gone.after (h : Gone c q q') (hchanges : Changes q₀ q) : Gone c q₀ q' := by
  have hle := count_le_of_changes c hchanges
  rcases h with hstarted | hdropped
  · exact .inl (hle.1.trans_lt hstarted)
  · exact .inr (hle.2.trans_lt hdropped)

/-! ### Steps and runs -/

theorem Due.disconnect1 (h : Due own c n q) (k : ℕ) (internal : Bool) :
    Due own c (n + internal.toNat) (mqttAsyncDisconnect1 q k internal).2 ∨
      Gone c q (mqttAsyncDisconnect1 q k internal).2 := by
  unfold mqttAsyncDisconnect1
  cases internal with
  | true =>
      dsimp only
      rw [if_pos rfl]
      split
      · exact .inl (h.mono (Nat.le_succ n))
      · exact .inl (h.addFirst rfl)
  | false =>
      dsimp only
      rw [if_neg Bool.false_ne_true]
      split
      · exact .inl (h.setClient k _)
      · exact (h.setClient k _).addLast rfl

theorem Due.afterSocketError (h : Due own c n q) (command : QueuedCommand) (moreToTry : Bool) :
    Due own c (n + 1) (afterSocketError q command moreToTry) ∨
      Gone c q (afterSocketError q command moreToTry) := by
  unfold CatDect.Mqtt.afterSocketError
  split
  · rename_i hconnect
    have hfirst : command.goesFirst = true := by
      unfold QueuedCommand.goesFirst
      rw [hconnect]
    have hagain := h.disconnect1 command.client false
    dsimp only
    split
    · rcases hagain with hdue | hgone
      · exact .inl ((hdue.setClient command.client _).addFirst hfirst)
      · exact .inr (hgone.changes ((Relation.ReflTransGen.single (.link _ _ _)).trans
          (changes_addConnection _ (isConnection_of_goesFirst hfirst))))
    · rcases hagain with hdue | hgone
      · exact .inl ((hdue.setClient command.client _).mono (Nat.le_succ n))
      · exact .inr (hgone.changes (.single (.link _ _ _)))
  · exact .inl (h.mono (Nat.le_succ n))
  · exact h.disconnect1 command.client true

theorem Due.processCommand (h : Due own c n q)
    (hready : ReadyFor own c (q.clients c.client)) (rc : WriteResult) (moreToTry : Bool) :
    (∃ m, m + 1 = n + (decide (rc = .socketError)).toNat ∧
        Due own c m (mqttAsyncProcessCommand q rc moreToTry)) ∨
      Gone c q (mqttAsyncProcessCommand q rc moreToTry) := by
  obtain ⟨before, after, hsplit, hlen, hbefore⟩ := h
  obtain ⟨command, rest, hnext, hcases⟩ :=
    nextCommand_due hready List.not_mem_nil hbefore after
  rw [← hsplit] at hnext
  unfold mqttAsyncProcessCommand
  rw [hnext]
  dsimp only
  have hmore : ∀ q', Gone c q q' → Gone c q
      (if rc = .socketError then CatDect.Mqtt.afterSocketError q' command moreToTry else q') := by
    intro q' hgone
    split
    · exact hgone.changes (changes_afterSocketError q' command moreToTry)
    · exact hgone
  rcases hcases with ⟨rfl, rfl⟩ | ⟨earlier, later, rfl, rfl⟩
  · refine .inr (hmore _ (.inl ?_))
    show q.started.count command < (q.started ++ [command]).count command
    rw [List.count_append, List.count_singleton_self]
    exact Nat.lt_succ_self _
  · rw [List.length_append, List.length_cons] at hlen
    have hdue : Due own c (n - 1) (takeUp q command (earlier ++ later ++ c :: after) rc) := by
      refine ⟨earlier ++ later, after, rfl, ?_, fun b hb => hbefore b ?_⟩
      · rw [List.length_append]
        omega
      · rcases List.mem_append.mp hb with hb | hb
        · exact List.mem_append_left _ hb
        · exact List.mem_append_right _ (List.mem_cons_of_mem _ hb)
    by_cases herror : rc = .socketError
    · rw [if_pos herror, decide_eq_true herror, Bool.toNat_true]
      obtain ⟨-, hstart, htakes⟩ := nextCommand_spec hnext
      rcases hdue.afterSocketError command moreToTry with hlater | hgone
      · exact .inl ⟨n - 1 + 1, by omega, hlater⟩
      · exact .inr (hgone.after (.single (.start rc hstart htakes)))
    · rw [if_neg herror, decide_eq_false herror, Bool.toNat_false]
      exact .inl ⟨n - 1, by omega, hdue⟩

theorem Due.call {call : Option (ReturnCode × Sending)} (h : Due own c n q)
    (hcall : Leaves call fun q' => Due own c n q' ∨ Gone c q q') :
    Due own c n ((call.map Prod.snd).getD q) ∨ Gone c q ((call.map Prod.snd).getD q) :=
  leaves_result (P := fun q' => Due own c n q' ∨ Gone c q q') (.inl h) hcall

theorem Due.send (h : Due own c n q) {k : ℕ} {destinationName : List UInt8} (payload : List UInt8)
    (qos : ℤ) (retained : Bool) (response : Option ResponseOptions) :
    Leaves (mqttAsyncSend q k destinationName payload qos retained response) fun q' =>
      Due own c n q' ∨ Gone c q q' := by
  refine leaves_send (.inl h) fun msgid q' hassign => ?_
  have hdue := h.of_commands (sameQueue_sendMsgId hassign).commands
  refine ⟨.inl hdue, fun _ _ => ?_⟩
  exact (hdue.addLast rfl).imp_right fun hgone => hgone.after (changes_sendMsgId hassign).1

theorem Due.requestMany (h : Due own c n q) {k : ℕ} {topics : List (List UInt8 × ℤ)}
    {optionRefused : MqttAsyncs → Option Bool} {type : CommandType}
    (htype : ∀ token, (QueuedCommand.mk k token type).goesFirst = false) :
    Leaves (requestMany q k topics optionRefused type) fun q' => Due own c n q' ∨ Gone c q q' := by
  refine leaves_requestMany (.inl h) fun msgid q' hassign => ?_
  have hdue := h.of_commands (sameQueue_assignMsgId hassign).commands
  refine ⟨.inl hdue, fun _ => ?_⟩
  exact (hdue.addLast (htype msgid)).imp_right fun hgone =>
    hgone.after (.single (.assign hassign))

/-- After a step the command is still due, one later for a command inserted and one sooner for
one taken up, or it is gone. -/
theorem Due.step (h : Due own c n q) (hready : ReadyFor own c (q.clients c.client))
    (e : QueueEvent) :
    (∃ m, m + e.isProcess.toNat = n + e.mayInsert.toNat ∧ Due own c m (queueStep q e)) ∨
      Gone c q (queueStep q e) := by
  cases e with
  | send k destinationName payload qos retained response =>
      exact (h.call (h.send payload qos retained response)).imp_left fun hdue => ⟨n, rfl, hdue⟩
  | subscribeMany k topics response =>
      exact (h.call (h.requestMany fun _ => rfl)).imp_left fun hdue => ⟨n, rfl, hdue⟩
  | unsubscribeMany k topics response =>
      exact (h.call (h.requestMany fun _ => rfl)).imp_left fun hdue => ⟨n, rfl, hdue⟩
  | connect k => exact .inl ⟨n + 1, rfl, h.addFirst rfl⟩
  | disconnect k internal =>
      exact (h.disconnect1 k internal).imp_left fun hdue => ⟨n + internal.toNat, rfl, hdue⟩
  | process rc moreToTry => exact h.processCommand hready rc moreToTry
  | link k connection => exact .inl ⟨n, rfl, h⟩
  | acknowledged k msgid => exact .inl ⟨n, rfl, h⟩
  | responded k msgid => exact .inl ⟨n, rfl, h⟩
  | cleanSession k => exact .inl ⟨n, rfl, h⟩

theorem changes_run (q : Sending) (events : List QueueEvent) :
    Changes q (run queueStep q events) :=
  queue_invariant (P := Changes q) (fun _ _ h hchange => h.tail hchange) .refl events

theorem Due.run (h : Due own c n q) {events : List QueueEvent}
    (hready : Throughout queueStep q (fun q' => ReadyFor own c (q'.clients c.client)) events) :
    (∃ m, m + events.countP QueueEvent.isProcess = n + events.countP QueueEvent.mayInsert ∧
        Due own c m (run queueStep q events)) ∨ Gone c q (run queueStep q events) := by
  induction events using List.reverseRecOn with
  | nil => exact .inl ⟨n, rfl, h⟩
  | append_singleton events e ih =>
      obtain ⟨hbefore, -⟩ := throughout_append_singleton.mp hready
      rw [run_append_singleton, List.countP_append, List.countP_append]
      rcases ih hbefore with ⟨m, hm, hdue⟩ | hgone
      · rcases hdue.step (hbefore events (List.prefix_refl events)) e with ⟨m', hm', hdue'⟩ | hgone
        · refine .inl ⟨m', ?_, hdue'⟩
          have hcount : ∀ p : QueueEvent → Bool, [e].countP p = (p e).toNat := by
            intro p
            cases hp : p e with
            | true => simp [hp]
            | false => simp [hp]
          rw [hcount, hcount]
          omega
        · exact .inr (hgone.after (changes_run q events))
      · exact .inr (hgone.changes (changes_step _ e))

end Due

/-- **A client that is ready is not held up.**  Let a command's client be ready for it, and for
those of its commands that are before it, in every state of a run, whatever the connections of
the other clients do.  If the sending thread goes round more often than there are commands
before it or put before it, it is taken up, or deleted for a newer message. -/
theorem ready_command_goes (q : Sending) (c : QueuedCommand) (before after : List QueuedCommand)
    (hsplit : q.commands = before ++ c :: after)
    (events : List QueueEvent)
    (hready : Throughout queueStep q (fun q' => ReadyFor before c (q'.clients c.client)) events)
    (hturns : before.length + events.countP QueueEvent.mayInsert <
      events.countP QueueEvent.isProcess) :
    Gone c q (run queueStep q events) := by
  have hdue : Due before c before.length q :=
    ⟨before, after, hsplit, Nat.le_refl _, fun b hb _ => .inr hb⟩
  rcases hdue.run hready with ⟨m, hm, -⟩ | hgone
  · omega
  · exact hgone

def oneConnected : List QueueEvent :=
  wantsConnection ++ [.link 1 ⟨true, false, false, true, 10⟩, .send 0 [97] [1] 0 false none,
    .send 1 [97] [2] 0 false none, .send 1 [97] [3] 0 false none]

def bufferOfTwo : CreateOptions :=
  { bufferOfOne with maxBufferedMessages := 2, room := Int.natCast_succ_pos 1 }

def twoClients : Sending := run queueStep (.init fun _ => (some bufferOfTwo, 5)) oneConnected

def queuedMessage (k : ℕ) (byte : UInt8) : QueuedCommand := ⟨k, 0, .publish [97] [byte] 0 false⟩

theorem ready_command_goes_oneConnected :
    Gone (queuedMessage 1 3) twoClients
      (run queueStep twoClients (List.replicate 3 (.process .complete false))) := by
  refine ready_command_goes twoClients (queuedMessage 1 3) [queuedMessage 0 1, queuedMessage 1 2]
    [] rfl (List.replicate 3 (.process .complete false)) ?_ (by decide)
  simp only [List.replicate, throughout_cons, throughout_nil]
  exact ⟨by decide, by decide, by decide, by decide⟩

end CatDect.Mqtt
