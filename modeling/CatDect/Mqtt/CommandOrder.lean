import CatDect.Mqtt.CommandQueue

/-!
# Commands in order

Every command that a client has appended to the queue is taken up once, in the order of the
calls, or is still waiting, or was deleted to make room for a newer message.
-/

namespace CatDect.Mqtt

open CatDect.Support

/-! ## What waits, and how it is counted -/

def mine (k : ℕ) (c : QueuedCommand) : Bool := decide (c.client = k) && !c.goesFirst

structure Orderly (q : Sending) : Prop where
  fifo : ∀ k, Fifo (q.accepted.filter (mine k)) (q.started.filter (mine k))
    (q.dropped.filter (mine k)) (q.commands.filter (mine k))
  counted : ∀ k, (q.clients k).noBufferedMessages = q.commands.countP (publishFor k)
  bounded : ∀ k o, (q.clients k).createOptions = some o →
    (q.clients k).noBufferedMessages ≤ o.maxBufferedMessages

/-- Nothing has changed but ids, connections and what waits for a response. -/
structure SameQueue (q q' : Sending) : Prop where
  commands : q'.commands = q.commands
  accepted : q'.accepted = q.accepted
  started : q'.started = q.started
  dropped : q'.dropped = q.dropped
  createOptions : ∀ k, (q'.clients k).createOptions = (q.clients k).createOptions
  noBufferedMessages : ∀ k, (q'.clients k).noBufferedMessages = (q.clients k).noBufferedMessages

section Orderly

variable {q q' : Sending} {k : ℕ} {m : MqttAsyncs} {command : QueuedCommand}

theorem sameQueue_refl (q : Sending) : SameQueue q q :=
  ⟨rfl, rfl, rfl, rfl, fun _ => rfl, fun _ => rfl⟩

theorem sameQueue_setClient (hoptions : m.createOptions = (q.clients k).createOptions)
    (hcount : m.noBufferedMessages = (q.clients k).noBufferedMessages) :
    SameQueue q (q.setClient k m) where
  commands := rfl
  accepted := rfl
  started := rfl
  dropped := rfl
  createOptions := by
    intro j
    rw [setClient_clients]
    split
    · rename_i hj
      rw [hoptions, hj]
    · rfl
  noBufferedMessages := by
    intro j
    rw [setClient_clients]
    split
    · rename_i hj
      rw [hcount, hj]
    · rfl

theorem Orderly.sameQueue (h : Orderly q) (hsame : SameQueue q q') : Orderly q' where
  fifo := by
    intro k
    rw [hsame.accepted, hsame.started, hsame.dropped, hsame.commands]
    exact h.fifo k
  counted := by
    intro k
    rw [hsame.noBufferedMessages, hsame.commands]
    exact h.counted k
  bounded := by
    intro k o ho
    rw [hsame.noBufferedMessages]
    rw [hsame.createOptions] at ho
    exact h.bounded k o ho

theorem sameQueue_assignMsgId {msgid : ℕ} (h : mqttAsyncAssignMsgId q k = some (msgid, q')) :
    SameQueue q q' := by
  obtain ⟨id, -, heq⟩ := Option.map_eq_some_iff.mp h
  split at heq
  · obtain ⟨-, rfl⟩ := Prod.mk.inj heq
    exact sameQueue_refl q
  · obtain ⟨-, rfl⟩ := Prod.mk.inj heq
    exact sameQueue_setClient rfl rfl

theorem publish_not_goesFirst (h : command.isPublish = true) : command.goesFirst = false := by
  obtain ⟨client, token, type⟩ := command
  cases type with
  | publish _ _ _ _ => rfl
  | _ => exact nomatch h

theorem not_mine_of_goesFirst (h : command.goesFirst = true) (k : ℕ) : ¬mine k command = true := by
  simp [mine, h]

theorem not_publishFor_of_goesFirst (h : command.goesFirst = true) (k : ℕ) :
    ¬publishFor k command = true := by
  intro hfor
  have hpublish : command.isPublish = true := (Bool.and_eq_true_iff.mp hfor).2
  rw [publish_not_goesFirst hpublish] at h
  exact nomatch h

theorem Orderly.insertFirst (h : Orderly q) (hfirst : command.goesFirst = true) :
    Orderly { q with commands := command :: q.commands } where
  fifo := by
    intro k
    rw [List.filter_cons_of_neg (not_mine_of_goesFirst hfirst k)]
    exact h.fifo k
  counted := by
    intro k
    rw [List.countP_cons_of_neg (not_publishFor_of_goesFirst hfirst k)]
    exact h.counted k
  bounded := h.bounded

def Sending.append (q : Sending) (command : QueuedCommand) : Sending :=
  { q with commands := q.commands ++ [command], accepted := q.accepted ++ [command] }

theorem Orderly.fifo_append (h : Orderly q) (command : QueuedCommand) (k : ℕ) :
    Fifo ((q.append command).accepted.filter (mine k)) (q.started.filter (mine k))
      (q.dropped.filter (mine k)) ((q.append command).commands.filter (mine k)) := by
  unfold Sending.append
  rw [List.filter_append, List.filter_append]
  exact (h.fifo k).accept ([command].filter (mine k))

theorem Orderly.append (h : Orderly q) (hpublish : command.isPublish = false) :
    Orderly (q.append command) where
  fifo := h.fifo_append command
  counted := by
    intro k
    have hnot : ¬publishFor k command = true := by simp [publishFor, hpublish]
    show (q.clients k).noBufferedMessages = (q.commands ++ [command]).countP (publishFor k)
    rw [List.countP_append, List.countP_singleton, if_neg hnot, Nat.add_zero]
    exact h.counted k
  bounded := h.bounded

theorem publishFor_iff {k : ℕ} {c : QueuedCommand} :
    publishFor k c = true ↔ c.client = k ∧ c.isPublish = true := by
  simp [publishFor]

theorem Orderly.deleteOldest (h : Orderly q) (hpublish : command.isPublish = true) :
    Orderly
      { q.append command with
        commands := (q.append command).commands.eraseP (publishFor command.client)
        dropped := q.dropped ++
          ((q.append command).commands.find? (publishFor command.client)).toList } := by
  have hself : publishFor command.client command = true := publishFor_iff.mpr ⟨rfl, hpublish⟩
  have hmem : command ∈ (q.append command).commands :=
    List.mem_append_right q.commands (List.mem_singleton_self command)
  obtain ⟨oldest, before, after, hbefore, holdest, hsplit, herase⟩ :=
    List.exists_of_eraseP hmem hself
  have hfind : (q.append command).commands.find? (publishFor command.client) = some oldest := by
    rw [hsplit, List.find?_append, List.find?_eq_none.mpr hbefore, List.find?_cons_of_pos holdest]
    rfl
  rw [herase, hfind]
  constructor
  · intro k
    have hfifo := h.fifo_append command k
    rw [hsplit, List.append_cons, List.filter_append, List.filter_append] at hfifo
    show Fifo _ _ ((q.dropped ++ [oldest]).filter (mine k)) ((before ++ after).filter (mine k))
    rw [List.filter_append, List.filter_append]
    exact hfifo.drop
  · intro k
    show (q.clients k).noBufferedMessages = (before ++ after).countP (publishFor k)
    have hcount := congrArg (List.countP (publishFor k)) hsplit
    unfold Sending.append at hcount
    rw [List.countP_append, List.countP_append, List.countP_cons, List.countP_cons,
      List.countP_nil] at hcount
    have hsame : publishFor k command = publishFor k oldest := by
      obtain ⟨hclient, hpublish'⟩ := publishFor_iff.mp holdest
      simp [publishFor, hclient, hpublish', hpublish]
    rw [hsame] at hcount
    rw [List.countP_append, h.counted k]
    omega
  · exact h.bounded

theorem not_bufferFull_iff {m : MqttAsyncs} :
    m.bufferFull = false ↔
      ∀ o, m.createOptions = some o → m.noBufferedMessages < o.maxBufferedMessages := by
  unfold MqttAsyncs.bufferFull
  cases m.createOptions with
  | none => simp
  | some o => simp

theorem Orderly.countOne (h : Orderly q) (hpublish : command.isPublish = true)
    (hroom : (q.clients command.client).bufferFull = false) :
    Orderly ((q.append command).setClient command.client
      { q.clients command.client with
        noBufferedMessages := (q.clients command.client).noBufferedMessages + 1 }) where
  fifo := h.fifo_append command
  counted := by
    intro k
    show _ = ((q.commands ++ [command]).countP (publishFor k) : ℤ)
    rw [setClient_clients, List.countP_append, List.countP_singleton]
    have hcount := h.counted k
    by_cases hk : k = command.client
    · subst hk
      rw [if_pos rfl, if_pos (publishFor_iff.mpr ⟨rfl, hpublish⟩)]
      push_cast
      rw [← hcount]
    · have hnot : ¬publishFor k command = true := fun hfor => hk (publishFor_iff.mp hfor).1.symm
      rw [if_neg hk, if_neg hnot, Nat.add_zero]
      exact hcount
  bounded := by
    intro k o ho
    rw [setClient_clients] at ho ⊢
    by_cases hk : k = command.client
    · rw [if_pos hk] at ho ⊢
      have hlt := not_bufferFull_iff.mp hroom o ho
      dsimp only
      omega
    · rw [if_neg hk] at ho ⊢
      exact h.bounded k o ho

theorem Orderly.addCommand (h : Orderly q) (command : QueuedCommand) :
    Orderly (mqttAsyncAddCommand q command).2 := by
  unfold mqttAsyncAddCommand
  split
  · rename_i hfirst
    split
    · exact h
    · exact h.insertFirst hfirst
  · split
    · rename_i hpublish
      unfold countPublish
      dsimp only
      split
      · exact h.deleteOldest hpublish
      · rename_i hroom
        exact h.countOne hpublish (Bool.eq_false_iff.mpr hroom)
    · rename_i hpublish
      exact h.append (Bool.eq_false_iff.mpr hpublish)

theorem keepCommand_createOptions (m : MqttAsyncs) (command : QueuedCommand) (rc : WriteResult) :
    (keepCommand m command rc).createOptions = m.createOptions := by
  unfold keepCommand
  grind

theorem keepCommand_noBufferedMessages (m : MqttAsyncs) (command : QueuedCommand)
    (rc : WriteResult) :
    (keepCommand m command rc).noBufferedMessages =
      m.noBufferedMessages - if command.isPublish then 1 else 0 := by
  unfold keepCommand QueuedCommand.isPublish
  grind

theorem Orderly.start (h : Orderly q) {rest : List QueuedCommand} {rc : WriteResult}
    (htakes : TakesFirst QueuedCommand.client command q.commands rest) :
    Orderly (takeUp q command rest rc) where
  fifo := by
    intro k
    have hfifo := h.fifo k
    have hsplit : q.commands.filter (mine k) =
        [command].filter (mine k) ++ rest.filter (mine k) := by
      apply htakes.filter
      intro c hc hcommand
      simp only [mine, Bool.and_eq_true, decide_eq_true_eq] at hc hcommand
      rw [hc.1, hcommand.1]
    rw [hsplit] at hfifo
    show Fifo _ ((q.started ++ [command]).filter (mine k)) _ _
    rw [List.filter_append]
    exact hfifo.start
  counted := by
    intro k
    have hcount := htakes.perm.countP_eq (publishFor k)
    rw [List.countP_cons] at hcount
    have hbefore := h.counted k
    show _ = (rest.countP (publishFor k) : ℤ)
    rw [takeUp, setClient_clients]
    by_cases hk : k = command.client
    · subst hk
      have hiff : publishFor command.client command = command.isPublish := by simp [publishFor]
      rw [hiff] at hcount
      rw [if_pos rfl, keepCommand_noBufferedMessages, hbefore, hcount]
      split
      · push_cast
        omega
      · omega
    · have hnot : ¬publishFor k command = true := fun hfor => hk (publishFor_iff.mp hfor).1.symm
      rw [if_neg hnot, Nat.add_zero] at hcount
      rw [if_neg hk, ← hcount]
      exact hbefore
  bounded := by
    intro k o ho
    rw [takeUp, setClient_clients] at ho ⊢
    by_cases hk : k = command.client
    · subst hk
      rw [if_pos rfl] at ho ⊢
      rw [keepCommand_createOptions] at ho
      rw [keepCommand_noBufferedMessages]
      have hle := h.bounded command.client o ho
      dsimp only
      split
      · omega
      · omega
    · rw [if_neg hk] at ho ⊢
      exact h.bounded k o ho

theorem Orderly.change (h : Orderly q) (hchange : Change q q') : Orderly q' := by
  cases hchange with
  | link k connection => exact h.sameQueue (sameQueue_setClient rfl rfl)
  | assign hassign => exact h.sameQueue (sameQueue_assignMsgId hassign)
  | add hadd => exact h.addCommand _
  | start rc hstart htakes => exact h.start htakes
  | acknowledge k msgid => exact h.sameQueue (sameQueue_setClient rfl rfl)
  | respond k msgid => exact h.sameQueue (sameQueue_setClient rfl rfl)
  | cleanSession k => exact h.sameQueue (sameQueue_setClient rfl rfl)

theorem orderly_init (clients : ℕ → Option CreateOptions × ℕ) : Orderly (.init clients) where
  fifo := fun _ => fifo_nil
  counted := fun _ => rfl
  bounded := fun _ o _ => Int.le_of_lt o.room

theorem orderly_run (clients : ℕ → Option CreateOptions × ℕ) (events : List QueueEvent) :
    Orderly (run queueStep (.init clients) events) :=
  queue_invariant (fun _ _ h hchange => h.change hchange) (orderly_init clients) events

end Orderly

/-! ## Deleted messages -/

/-- A full buffer refuses new messages rather than deleting old ones. -/
def CreateOptions.KeepsOldest (o : CreateOptions) : Prop :=
  o.structVersion < 2 ∨ o.deleteOldestMessages = false

instance (o : CreateOptions) : Decidable o.KeepsOldest := inferInstanceAs (Decidable (_ ∨ _))

structure KeptAll (k : ℕ) (q : Sending) : Prop where
  keepsOldest : ∀ o, (q.clients k).createOptions = some o → o.KeepsOldest
  dropped : q.dropped.filter (mine k) = []

section KeptAll

variable {q q' : Sending} {k : ℕ} {command : QueuedCommand}

theorem newestRefused_eq {m : MqttAsyncs} {o : CreateOptions} (ho : m.createOptions = some o)
    (hkeeps : o.KeepsOldest) : newestRefused m = m.bufferFull := by
  have hold : (decide (o.structVersion < 2) || !o.deleteOldestMessages) = true := by
    rcases hkeeps with hversion | hdelete
    · simp [hversion]
    · simp [hdelete]
  rw [newestRefused, ho, Option.any_some, hold, Bool.and_true]

theorem newestRefused_eq_false {m : MqttAsyncs} {o : CreateOptions}
    (ho : m.createOptions = some o) (hkeeps : ¬o.KeepsOldest) : newestRefused m = false := by
  have hold : (decide (o.structVersion < 2) || !o.deleteOldestMessages) = false := by
    simp only [CreateOptions.KeepsOldest, not_or, Bool.not_eq_false] at hkeeps
    simp [hkeeps]
  rw [newestRefused, ho, Option.any_some, hold, Bool.and_false]

theorem bufferFull_of_none {m : MqttAsyncs} (ho : m.createOptions = none) :
    m.bufferFull = false := by
  rw [MqttAsyncs.bufferFull, ho]
  rfl

theorem addCommand_dropped (q : Sending) (command : QueuedCommand) :
    (mqttAsyncAddCommand q command).2.dropped = q.dropped ∨
      command.isPublish = true ∧ (q.clients command.client).bufferFull = true ∧
        ∃ oldest : Option QueuedCommand, (∀ c ∈ oldest, c.client = command.client) ∧
          (mqttAsyncAddCommand q command).2.dropped = q.dropped ++ oldest.toList := by
  unfold mqttAsyncAddCommand
  split
  · split
    · exact .inl rfl
    · exact .inl rfl
  · split
    · rename_i hpublish
      unfold countPublish
      dsimp only
      split
      · rename_i hfull
        exact .inr ⟨hpublish, hfull, _, fun c hc =>
          (publishFor_iff.mp (List.find?_some hc)).1, rfl⟩
      · exact .inl rfl
    · exact .inl rfl

theorem addCommand_createOptions (q : Sending) (command : QueuedCommand) (j : ℕ) :
    ((mqttAsyncAddCommand q command).2.clients j).createOptions = (q.clients j).createOptions := by
  unfold mqttAsyncAddCommand
  split
  · split
    · rfl
    · rfl
  · split
    · unfold countPublish
      dsimp only
      split
      · rfl
      · rw [setClient_clients]
        split
        · rename_i hj
          rw [hj]
        · rfl
    · rfl

theorem KeptAll.sameQueue (h : KeptAll k q) (hsame : SameQueue q q') : KeptAll k q' where
  keepsOldest := by
    intro o ho
    rw [hsame.createOptions] at ho
    exact h.keepsOldest o ho
  dropped := by
    rw [hsame.dropped]
    exact h.dropped

theorem KeptAll.add (h : KeptAll k q) (hadd : Addable q command) :
    KeptAll k (mqttAsyncAddCommand q command).2 where
  keepsOldest := by
    intro o ho
    rw [addCommand_createOptions] at ho
    exact h.keepsOldest o ho
  dropped := by
    rcases addCommand_dropped q command with hsame | ⟨hpublish, hfull, oldest, howner, hdropped⟩
    · rw [hsame]
      exact h.dropped
    · have hother : command.client ≠ k := by
        rintro rfl
        have hroom := hadd.room hpublish
        cases ho : (q.clients command.client).createOptions with
        | none =>
            rw [bufferFull_of_none ho] at hfull
            exact nomatch hfull
        | some o =>
            rw [newestRefused_eq ho (h.keepsOldest o ho), hfull] at hroom
            exact nomatch hroom
      rw [hdropped, List.filter_append, h.dropped, List.nil_append, List.filter_eq_nil_iff]
      intro c hc hmine
      have hclient := howner c (Option.mem_toList.mp hc)
      simp only [mine, Bool.and_eq_true, decide_eq_true_eq] at hmine
      exact hother (hclient.symm.trans hmine.1)

theorem KeptAll.start (h : KeptAll k q) (rest : List QueuedCommand) (rc : WriteResult) :
    KeptAll k (takeUp q command rest rc) where
  keepsOldest := by
    intro o ho
    rw [takeUp, setClient_clients] at ho
    split at ho
    · rename_i hk
      rw [keepCommand_createOptions, ← hk] at ho
      exact h.keepsOldest o ho
    · exact h.keepsOldest o ho
  dropped := h.dropped

theorem KeptAll.change (h : KeptAll k q) (hchange : Change q q') : KeptAll k q' := by
  cases hchange with
  | link j connection => exact h.sameQueue (sameQueue_setClient rfl rfl)
  | assign hassign => exact h.sameQueue (sameQueue_assignMsgId hassign)
  | add hadd => exact h.add hadd
  | start rc hstart htakes => exact h.start _ rc
  | acknowledge j msgid => exact h.sameQueue (sameQueue_setClient rfl rfl)
  | respond j msgid => exact h.sameQueue (sameQueue_setClient rfl rfl)
  | cleanSession j => exact h.sameQueue (sameQueue_setClient rfl rfl)

theorem keptAll_run {clients : ℕ → Option CreateOptions × ℕ}
    (hkeeps : ∀ o, (clients k).1 = some o → o.KeepsOldest) (events : List QueueEvent) :
    KeptAll k (run queueStep (.init clients) events) :=
  queue_invariant (fun _ _ h hchange => h.change hchange) ⟨hkeeps, rfl⟩ events

end KeptAll

/-! ## Results over runs -/

/-- **Commands are taken up in order, once.**  In every run and for each client, but for
`CONNECT` and an internal `DISCONNECT`, which go to the head: the commands taken up and then
those that wait are in the order in which they were appended, and with those deleted they are
all; none is deleted if a full buffer refuses new messages. -/
theorem commands_in_order (clients : ℕ → Option CreateOptions × ℕ) (events : List QueueEvent)
    (k : ℕ) :
    let q := run queueStep (.init clients) events
    ((q.started ++ q.commands).filter (mine k)).Sublist (q.accepted.filter (mine k)) ∧
      (q.accepted.filter (mine k)).Perm
        ((q.started ++ q.commands ++ q.dropped).filter (mine k)) ∧
      ((∀ o, (clients k).1 = some o → o.KeepsOldest) →
        q.accepted.filter (mine k) = (q.started ++ q.commands).filter (mine k)) := by
  have hfifo := (orderly_run clients events).fifo k
  simp only [List.filter_append]
  refine ⟨hfifo.inOrder, hfifo.accounted, fun hkeeps => ?_⟩
  rw [(keptAll_run hkeeps events).dropped] at hfifo
  exact hfifo.eq_of_kept

theorem buffered_messages_counted (clients : ℕ → Option CreateOptions × ℕ)
    (events : List QueueEvent) (k : ℕ) :
    let q := run queueStep (.init clients) events
    (q.clients k).noBufferedMessages = (q.commands.filter (publishFor k)).length ∧
      ∀ o, (q.clients k).createOptions = some o →
        ((q.commands.filter (publishFor k)).length : ℤ) ≤ o.maxBufferedMessages := by
  have horderly := orderly_run clients events
  dsimp only
  rw [← List.countP_eq_length_filter]
  refine ⟨horderly.counted k, fun o ho => ?_⟩
  rw [← horderly.counted k]
  exact horderly.bounded k o ho

end CatDect.Mqtt
