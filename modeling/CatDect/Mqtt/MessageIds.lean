import CatDect.Mqtt.CommandOrder

/-!
# Message ids

`MQTTAsync_assignMsgId` tries the ids after the last one assigned, round and round.  Two
operations of a client that are under way never share an id, whatever is sent, answered and
broken off in between, and every id fits into the two bytes of a packet.
-/

namespace CatDect.Mqtt

open CatDect.Support

/-! ## The search -/

/-- The ids in the order in which they are tried: those after the last one assigned, then those
before it. -/
def candidates (start : ℕ) : List ℕ :=
  List.range' (start + 1) (maxMsgId - start) ++ List.range' 1 (start - 1)

section Search

variable {used : ℕ → Bool} {start : ℕ}

theorem assignLoop_stretch (n rounds msgid : ℕ) (hmax : msgid + n ≤ maxMsgId)
    (hstart : start ≤ msgid ∨ msgid + n < start) :
    assignLoop used start (n + rounds) msgid =
      match (List.range' msgid n).find? fun id => !used id with
      | some id => some id
      | none => assignLoop used start rounds (msgid + n) := by
  induction n generalizing msgid with
  | zero => rw [Nat.zero_add]; rfl
  | succ n ih =>
      have hnext : nextMsgId msgid = msgid + 1 := if_neg (by omega)
      have hne : nextMsgId msgid ≠ start := by omega
      rw [Nat.add_right_comm, List.range'_succ, assignLoop]
      by_cases hused : used msgid = true
      · rw [if_pos hused, if_neg hne, hnext, ih (msgid + 1) (by omega) (by omega),
          List.find?_cons_of_neg (by simp [hused]), Nat.add_assoc, Nat.add_comm 1 n]
      · rw [if_neg hused, List.find?_cons_of_pos (by simpa using hused)]

theorem assignLoop_until (n rounds msgid : ℕ) (hmax : msgid + n ≤ maxMsgId)
    (hstart : start ≤ msgid ∨ msgid + n < start) :
    assignLoop used start (n + (rounds + 1)) msgid =
      match (List.range' msgid (n + 1)).find? fun id => !used id with
      | some id => some id
      | none =>
          if nextMsgId (msgid + n) = start then some 0
          else assignLoop used start rounds (nextMsgId (msgid + n)) := by
  rw [assignLoop_stretch n (rounds + 1) msgid hmax hstart, List.range'_1_concat, List.find?_append]
  cases (List.range' msgid n).find? fun id => !used id with
  | some id => rfl
  | none =>
      rw [Option.none_or]
      dsimp only
      rw [assignLoop]
      by_cases hused : used (msgid + n) = true
      · rw [if_pos hused, List.find?_cons_of_neg (by simp [hused])]
        rfl
      · rw [if_neg hused, List.find?_cons_of_pos (by simpa using hused)]

theorem assignLoop_before (rounds : ℕ) (hmax : start ≤ maxMsgId) (hstart : 2 ≤ start) :
    assignLoop used start (start - 1 + rounds) 1 =
      some (((List.range' 1 (start - 1)).find? fun id => !used id).getD 0) := by
  obtain ⟨n, rfl⟩ : ∃ n, start = n + 2 := ⟨start - 2, by omega⟩
  have hrounds : n + 2 - 1 + rounds = n + (rounds + 1) := by omega
  have hnext : nextMsgId (1 + n) = n + 2 := by
    rw [nextMsgId, if_neg (by omega)]
    omega
  rw [hrounds, assignLoop_until n rounds 1 (by omega) (.inr (by omega)), hnext, if_pos rfl]
  show _ = some (((List.range' 1 (n + 1)).find? fun id => !used id).getD 0)
  cases (List.range' 1 (n + 1)).find? fun id => !used id with
  | some id => rfl
  | none => rfl

/-- With every id in use, the loop does not end if none was assigned before. -/
theorem assignLoop_forever (hused : ∀ id, 0 < id → id ≤ maxMsgId → used id = true)
    (rounds : ℕ) {msgid : ℕ} (hpos : 0 < msgid) (hmax : msgid ≤ maxMsgId) :
    assignLoop used 0 rounds msgid = none := by
  induction rounds generalizing msgid with
  | zero => rfl
  | succ rounds ih =>
      have hnext : 0 < nextMsgId msgid ∧ nextMsgId msgid ≤ maxMsgId := by
        unfold nextMsgId
        split
        · exact ⟨Nat.one_pos, by decide⟩
        · exact ⟨Nat.succ_pos msgid, by omega⟩
      rw [assignLoop, if_pos (hused msgid hpos hmax), if_neg (by omega)]
      exact ih hnext.1 hnext.2

theorem assignLoop_eq (hmax : start ≤ maxMsgId) :
    assignLoop used start (maxMsgId + 1) (nextMsgId start) =
      match (candidates start).find? fun id => !used id with
      | some id => some id
      | none => if start = 0 then none else some 0 := by
  unfold candidates
  rcases Nat.lt_or_eq_of_le hmax with hlt | rfl
  · have hrounds : maxMsgId + 1 = (maxMsgId - start - 1) + ((start + 1) + 1) := by omega
    have hlen : maxMsgId - start - 1 + 1 = maxMsgId - start := by omega
    have hlast : start + 1 + (maxMsgId - start - 1) = maxMsgId := by omega
    have hnext : nextMsgId start = start + 1 := if_neg (by omega)
    have hround : nextMsgId maxMsgId = 1 := if_pos rfl
    rw [hrounds, hnext, assignLoop_until _ _ _ (by omega) (.inl (by omega)), hlen, hlast, hround,
      List.find?_append]
    cases hafter : (List.range' (start + 1) (maxMsgId - start)).find? fun id => !used id with
    | some id => rfl
    | none =>
        rw [Option.none_or]
        dsimp only
        rcases Nat.lt_trichotomy start 1 with hzero | rfl | hstart
        · obtain rfl : start = 0 := by omega
          rw [if_neg (by decide)]
          refine assignLoop_forever (fun id hpos hle => ?_) 1 Nat.one_pos (by decide)
          have hall := List.find?_eq_none.mp hafter id (List.mem_range'_1.mpr (by omega))
          simpa using hall
        · rfl
        · have hagain : start + 1 = start - 1 + 2 := by omega
          rw [if_neg (by omega), hagain, assignLoop_before 2 hmax hstart]
          cases (List.range' 1 (start - 1)).find? fun id => !used id with
          | some id => rfl
          | none => exact (if_neg (by omega)).symm
  · have hround : nextMsgId maxMsgId = 1 := if_pos rfl
    have hrounds : maxMsgId + 1 = maxMsgId - 1 + 2 := by decide
    rw [hround, hrounds, assignLoop_before 2 hmax (by decide), Nat.sub_self, List.range'_zero,
      List.nil_append]
    cases (List.range' 1 (maxMsgId - 1)).find? fun id => !used id with
    | some id => rfl
    | none => rfl

end Search

/-! ## Ids in use -/

def withId (k id : ℕ) (c : QueuedCommand) : Bool :=
  decide (c.client = k) && !c.isConnection && decide (c.token = id)

/-- An id belongs to one operation at most, and that operation either waits to be taken up or is
under way; whatever is answered has an id. -/
structure IdsApart (k : ℕ) (q : Sending) : Prop where
  last : (q.clients k).msgID ≤ maxMsgId
  ids : ∀ c ∈ q.commands, c.client = k → c.isConnection = false →
    c.token ≤ maxMsgId ∧ (c.answered = true → 0 < c.token)
  sentIds : ∀ c ∈ (q.clients k).responses, c.answered = true → 0 < c.token ∧ c.token ≤ maxMsgId
  responses : ∀ id, 0 < id →
    q.commands.countP (withId k id) + (q.clients k).responses.countP (withId k id) ≤ 1
  outboundMsgs : ∀ id, 0 < id →
    q.commands.countP (withId k id) + (q.clients k).outboundMsgs.count id ≤ 1

structure LessInUse (k : ℕ) (q q' : Sending) : Prop where
  commands : q'.commands.Sublist q.commands
  responses : (q'.clients k).responses.Sublist (q.clients k).responses
  outboundMsgs : (q'.clients k).outboundMsgs.Sublist (q.clients k).outboundMsgs

section IdsApart

variable {q q' : Sending} {k : ℕ} {command : QueuedCommand}

theorem IdsApart.less (h : IdsApart k q) (hless : LessInUse k q q')
    (hlast : (q'.clients k).msgID ≤ maxMsgId) : IdsApart k q' where
  last := hlast
  ids := fun c hc => h.ids c (hless.commands.subset hc)
  sentIds := fun c hc => h.sentIds c (hless.responses.subset hc)
  responses := by
    intro id hid
    exact (Nat.add_le_add (hless.commands.countP_le) (hless.responses.countP_le)).trans
      (h.responses id hid)
  outboundMsgs := by
    intro id hid
    exact (Nat.add_le_add (hless.commands.countP_le) (hless.outboundMsgs.count_le id)).trans
      (h.outboundMsgs id hid)

theorem IdsApart.token_of_answered (h : IdsApart k q) {c : QueuedCommand} (hc : c ∈ q.commands)
    (hk : c.client = k) (hanswered : c.answered = true) : 0 < c.token ∧ c.token ≤ maxMsgId := by
  have hconnection : c.isConnection = false := by
    refine Bool.eq_false_iff.mpr fun hconnection => ?_
    rw [answered_of_isConnection hconnection] at hanswered
    exact absurd hanswered Bool.false_ne_true
  obtain ⟨hle, hpos⟩ := h.ids c hc hk hconnection
  exact ⟨hpos hanswered, hle⟩

theorem IdsApart.setClient (h : IdsApart k q) {j : ℕ} {m : MqttAsyncs}
    (hresponses : m.responses.Sublist (q.clients j).responses)
    (houtbound : m.outboundMsgs.Sublist (q.clients j).outboundMsgs)
    (hlast : m.msgID ≤ maxMsgId ∨ m.msgID = (q.clients j).msgID) :
    IdsApart k (q.setClient j m) := by
  have hclient := setClient_clients q j k m
  by_cases hk : k = j
  · subst hk
    rw [if_pos rfl] at hclient
    refine h.less ⟨List.Sublist.refl _, ?_, ?_⟩ ?_
    · rw [hclient]
      exact hresponses
    · rw [hclient]
      exact houtbound
    · rw [hclient]
      rcases hlast with hle | heq
      · exact hle
      · rw [heq]
        exact h.last
  · rw [if_neg hk] at hclient
    refine h.less ⟨List.Sublist.refl _, ?_, ?_⟩ ?_
    · rw [hclient]
    · rw [hclient]
    · rw [hclient]
      exact h.last

theorem mem_candidates {start id : ℕ} (h : id ∈ candidates start) (hmax : start ≤ maxMsgId) :
    0 < id ∧ id ≤ maxMsgId := by
  rcases List.mem_append.mp h with hafter | hbefore
  · have hrange := List.mem_range'_1.mp hafter
    omega
  · have hrange := List.mem_range'_1.mp hbefore
    omega

theorem assignLoop_le {used : ℕ → Bool} {start id : ℕ} (hmax : start ≤ maxMsgId)
    (h : assignLoop used start (maxMsgId + 1) (nextMsgId start) = some id) : id ≤ maxMsgId := by
  rw [assignLoop_eq hmax] at h
  cases hfind : (candidates start).find? fun id => !used id with
  | some found =>
      rw [hfind] at h
      rw [← Option.some.inj h]
      exact (mem_candidates (List.mem_of_find?_eq_some hfind) hmax).2
  | none =>
      rw [hfind] at h
      dsimp only at h
      split at h
      · exact nomatch h
      · rw [← Option.some.inj h]
        exact Nat.zero_le maxMsgId

theorem IdsApart.assign (h : IdsApart k q) {j msgid : ℕ}
    (hassign : mqttAsyncAssignMsgId q j = some (msgid, q'))
    (hlast : (q.clients j).msgID ≤ maxMsgId) : IdsApart k q' := by
  obtain ⟨id, hloop, heq⟩ := Option.map_eq_some_iff.mp hassign
  split at heq
  · obtain ⟨-, rfl⟩ := Prod.mk.inj heq
    exact h
  · obtain ⟨-, rfl⟩ := Prod.mk.inj heq
    exact h.setClient (List.Sublist.refl _) (List.Sublist.refl _) (.inl (assignLoop_le hlast hloop))

theorem addCommand_countP_le (p : QueuedCommand → Bool) (q : Sending) (command : QueuedCommand) :
    (mqttAsyncAddCommand q command).2.commands.countP p ≤
      q.commands.countP p + [command].countP p := by
  have hlast : (q.commands ++ [command]).countP p = q.commands.countP p + [command].countP p :=
    List.countP_append
  have hfirst : (command :: q.commands).countP p = q.commands.countP p + [command].countP p := by
    rw [← List.singleton_append, List.countP_append, Nat.add_comm]
  unfold mqttAsyncAddCommand
  split
  · split
    · exact Nat.le_add_right _ _
    · exact Nat.le_of_eq hfirst
  · split
    · unfold countPublish
      dsimp only
      split
      · exact (List.eraseP_sublist.countP_le).trans (Nat.le_of_eq hlast)
      · exact Nat.le_of_eq hlast
    · exact Nat.le_of_eq hlast

theorem mem_addCommand {c : QueuedCommand} (h : c ∈ (mqttAsyncAddCommand q command).2.commands) :
    c ∈ q.commands ∨ c = command := by
  have hcount := addCommand_countP_le (fun d => decide (d = c)) q command
  have hpos : 0 < (mqttAsyncAddCommand q command).2.commands.countP (fun d => decide (d = c)) :=
    List.countP_pos_iff.mpr ⟨c, h, decide_eq_true rfl⟩
  by_cases hself : command = c
  · exact .inr hself.symm
  · rw [List.countP_singleton, if_neg (by simpa using hself), Nat.add_zero] at hcount
    obtain ⟨d, hd, heq⟩ := List.countP_pos_iff.mp (Nat.lt_of_lt_of_le hpos hcount)
    rw [← of_decide_eq_true heq]
    exact .inl hd

theorem addCommand_clients (q : Sending) (command : QueuedCommand) (k : ℕ) :
    ∃ n, (mqttAsyncAddCommand q command).2.clients k =
      { q.clients k with noBufferedMessages := n } := by
  unfold mqttAsyncAddCommand
  split
  · split
    · exact ⟨_, rfl⟩
    · exact ⟨_, rfl⟩
  · split
    · unfold countPublish
      dsimp only
      split
      · exact ⟨_, rfl⟩
      · rw [setClient_clients]
        split
        · rename_i hk
          rw [hk]
          exact ⟨_, rfl⟩
        · exact ⟨_, rfl⟩
    · exact ⟨_, rfl⟩

theorem withId_iff {id : ℕ} {c : QueuedCommand} :
    withId k id c = true ↔ c.client = k ∧ c.isConnection = false ∧ c.token = id := by
  simp [withId, and_assoc]

theorem Sending.FreshId.unusedIn {id : ℕ} (h : q.FreshId k id) :
    q.commands.countP (withId k id) = 0 ∧ (q.clients k).responses.countP (withId k id) = 0 ∧
      (q.clients k).outboundMsgs.count id = 0 := by
  have hunused := h.unused
  simp only [Sending.msgIdUsed, Bool.or_eq_false_iff, List.any_eq_false,
    decide_eq_true_eq] at hunused
  obtain ⟨⟨hcommands, houtbound⟩, hresponses⟩ := hunused
  refine ⟨List.countP_eq_zero.mpr fun c hc hid => ?_, List.countP_eq_zero.mpr fun c hc hid => ?_,
    List.count_eq_zero.mpr fun hmem => ?_⟩
  · exact hcommands c hc (withId_iff.mp hid).2.2
  · exact hresponses c hc (withId_iff.mp hid).2.2
  · rw [List.contains_iff_mem.mpr hmem] at houtbound
    exact absurd houtbound (by decide)

theorem IdsApart.add (h : IdsApart k q) (hadd : Addable q command) :
    IdsApart k (mqttAsyncAddCommand q command).2 := by
  obtain ⟨n, hclient⟩ := addCommand_clients q command k
  have hcount := fun id => addCommand_countP_le (withId k id) q command
  -- Either the command does not carry the id, or the id is in use nowhere.
  have hfresh : ∀ id, 0 < id → [command].countP (withId k id) = 0 ∨
      [command].countP (withId k id) = 1 ∧ q.FreshId k id := by
    intro id hid
    rw [List.countP_singleton]
    split
    · rename_i hwith
      obtain ⟨hk, hconnection, htoken⟩ := withId_iff.mp hwith
      refine .inr ⟨rfl, ?_⟩
      rcases hadd.ids hconnection with ⟨-, hzero⟩ | hfresh
      · omega
      · rw [← hk, ← htoken]
        exact hfresh
    · exact .inl rfl
  constructor
  · rw [hclient]
    exact h.last
  · intro c hc hk hconnection
    rcases mem_addCommand hc with hold | rfl
    · exact h.ids c hold hk hconnection
    · rcases hadd.ids hconnection with ⟨hanswered, hzero⟩ | hfresh
      · rw [hzero, hanswered]
        exact ⟨Nat.zero_le maxMsgId, nofun⟩
      · refine ⟨?_, fun _ => Nat.pos_of_ne_zero hfresh.ne_zero⟩
        rw [← hfresh.last, hk]
        exact h.last
  · rw [hclient]
    exact h.sentIds
  · intro id hid
    rw [hclient]
    dsimp only
    have hbefore := h.responses id hid
    have hle := hcount id
    rcases hfresh id hid with hother | ⟨hself, hunused⟩
    · omega
    · obtain ⟨hcommands, hresponses, -⟩ := hunused.unusedIn
      omega
  · intro id hid
    rw [hclient]
    dsimp only
    have hbefore := h.outboundMsgs id hid
    have hle := hcount id
    rcases hfresh id hid with hother | ⟨hself, hunused⟩
    · omega
    · obtain ⟨hcommands, -, houtbound⟩ := hunused.unusedIn
      omega

theorem keepCommand_msgID (m : MqttAsyncs) (command : QueuedCommand) (rc : WriteResult) :
    (keepCommand m command rc).msgID = m.msgID := by
  unfold keepCommand
  grind

theorem keepCommand_responses (m : MqttAsyncs) (command : QueuedCommand) (rc : WriteResult) :
    (keepCommand m command rc).responses = m.responses ∨
      (keepCommand m command rc).responses = m.responses ++ [command] := by
  unfold keepCommand
  grind

theorem keepCommand_outboundMsgs (m : MqttAsyncs) (command : QueuedCommand) (rc : WriteResult) :
    (keepCommand m command rc).outboundMsgs = m.outboundMsgs ∨
      (keepCommand m command rc).outboundMsgs = m.outboundMsgs ++ [command.token] ∧
        command.isConnection = false := by
  unfold keepCommand QueuedCommand.isConnection
  grind

theorem takeUp_msgID (q : Sending) (command : QueuedCommand) (rest : List QueuedCommand)
    (rc : WriteResult) (k : ℕ) :
    ((takeUp q command rest rc).clients k).msgID = (q.clients k).msgID := by
  unfold takeUp
  rw [setClient_clients]
  split
  · rename_i hk
    rw [keepCommand_msgID, hk]
  · rfl

theorem takeUp_responses (q : Sending) (command : QueuedCommand) (rest : List QueuedCommand)
    (rc : WriteResult) (k : ℕ) :
    ((takeUp q command rest rc).clients k).responses = (q.clients k).responses ∨
      ((takeUp q command rest rc).clients k).responses = (q.clients k).responses ++ [command] ∧
        command.client = k := by
  unfold takeUp
  rw [setClient_clients]
  split
  · rename_i hk
    rw [hk]
    exact (keepCommand_responses (q.clients command.client) command rc).imp id fun h => ⟨h, rfl⟩
  · exact .inl rfl

theorem takeUp_outboundMsgs (q : Sending) (command : QueuedCommand) (rest : List QueuedCommand)
    (rc : WriteResult) (k : ℕ) :
    ((takeUp q command rest rc).clients k).outboundMsgs = (q.clients k).outboundMsgs ∨
      ((takeUp q command rest rc).clients k).outboundMsgs =
          (q.clients k).outboundMsgs ++ [command.token] ∧
        command.client = k ∧ command.isConnection = false := by
  unfold takeUp
  rw [setClient_clients]
  split
  · rename_i hk
    rw [hk]
    exact (keepCommand_outboundMsgs (q.clients command.client) command rc).imp id
      fun h => ⟨h.1, rfl, h.2⟩
  · exact .inl rfl

theorem IdsApart.start (h : IdsApart k q) {rest : List QueuedCommand} {rc : WriteResult}
    (htakes : TakesFirst QueuedCommand.client command q.commands rest) :
    IdsApart k (takeUp q command rest rc) := by
  have hcount : ∀ id, q.commands.countP (withId k id) =
      rest.countP (withId k id) + [command].countP (withId k id) := by
    intro id
    rw [htakes.perm.countP_eq, ← List.singleton_append, List.countP_append, Nat.add_comm]
  have hmem : ∀ c, c ∈ command :: rest → c ∈ q.commands := fun c hc => htakes.perm.mem_iff.mpr hc
  constructor
  · rw [takeUp_msgID]
    exact h.last
  · intro c hc
    exact h.ids c (hmem c (List.mem_cons_of_mem command hc))
  · intro c hc
    rcases takeUp_responses q command rest rc k with heq | ⟨heq, hk⟩
    · rw [heq] at hc
      exact h.sentIds c hc
    · rw [heq] at hc
      rcases List.mem_append.mp hc with hold | hnew
      · exact h.sentIds c hold
      · obtain rfl := List.mem_singleton.mp hnew
        exact h.token_of_answered (hmem c List.mem_cons_self) hk
  · intro id hid
    have hbefore := h.responses id hid
    rw [hcount id] at hbefore
    show rest.countP (withId k id) + _ ≤ 1
    rcases takeUp_responses q command rest rc k with heq | ⟨heq, -⟩
    · rw [heq]
      omega
    · rw [heq, List.countP_append]
      omega
  · intro id hid
    have hbefore := h.outboundMsgs id hid
    rw [hcount id] at hbefore
    show rest.countP (withId k id) + _ ≤ 1
    rcases takeUp_outboundMsgs q command rest rc k with heq | ⟨heq, hk, hnot⟩
    · rw [heq]
      omega
    · -- the id goes from the list to the messages in flight
      have hself : [command.token].count id = [command].countP (withId k id) := by
        simp [List.count_singleton, List.countP_singleton, withId, hnot, hk]
      rw [heq, List.count_append, hself]
      omega

theorem idsApart_change (h : ∀ k, IdsApart k q) (hchange : Change q q') (k : ℕ) :
    IdsApart k q' := by
  cases hchange with
  | link j connection =>
      exact (h k).setClient (List.Sublist.refl _) (List.Sublist.refl _) (.inr rfl)
  | @assign _ j _ hassign => exact (h k).assign hassign (h j).last
  | add hadd => exact (h k).add hadd
  | start rc hstart htakes => exact (h k).start htakes
  | acknowledge j msgid =>
      exact (h k).setClient (List.Sublist.refl _) List.erase_sublist (.inr rfl)
  | respond j msgid =>
      exact (h k).setClient List.eraseP_sublist (List.Sublist.refl _) (.inr rfl)
  | cleanSession j =>
      exact (h k).setClient (List.nil_sublist _) (List.nil_sublist _) (.inl (Nat.zero_le _))

theorem idsApart_run (clients : ℕ → Option CreateOptions × ℕ) (events : List QueueEvent) (k : ℕ) :
    IdsApart k (run queueStep (.init clients) events) := by
  refine queue_invariant (P := fun q => ∀ k, IdsApart k q) (fun q q' h hchange => ?_) ?_ events k
  · exact idsApart_change h hchange
  · exact fun j =>
      ⟨Nat.zero_le maxMsgId, nofun, nofun, fun _ _ => Nat.zero_le 1, fun _ _ => Nat.zero_le 1⟩

end IdsApart

/-! ## Results over runs -/

/-- **Operations under way have different ids.**  In every run and for each client: a command
that is to be answered has an id between 1 and 65535, whether it waits or has been taken up and
waits for its response; and no id is in use twice, be it among these commands, or among the
commands that wait and the messages in flight. -/
theorem ids_apart (clients : ℕ → Option CreateOptions × ℕ) (events : List QueueEvent) (k : ℕ) :
    let q := run queueStep (.init clients) events
    (∀ c, c ∈ q.commands ∧ c.client = k ∨ c ∈ (q.clients k).responses → c.answered = true →
        0 < c.token ∧ c.token ≤ maxMsgId) ∧
      ∀ id, 0 < id →
        (q.commands ++ (q.clients k).responses).countP (withId k id) ≤ 1 ∧
          q.commands.countP (withId k id) + (q.clients k).outboundMsgs.count id ≤ 1 := by
  have hapart := idsApart_run clients events k
  dsimp only
  refine ⟨fun c hc hanswered => ?_, fun id hid => ⟨?_, hapart.outboundMsgs id hid⟩⟩
  · rcases hc with ⟨hc, hk⟩ | hc
    · exact hapart.token_of_answered hc hk hanswered
    · exact hapart.sentIds c hc hanswered
  · rw [List.countP_append]
    exact hapart.responses id hid

/-- **The next id is the first free one.**  In every run: the id assigned is the first of those
tried that no command and no message in flight has.  If there is none, the answer is 0, the id
last assigned being the only one not tried; but a client that has not been assigned an id yet
never gets an answer. -/
theorem next_id_assigned (clients : ℕ → Option CreateOptions × ℕ) (events : List QueueEvent)
    (k : ℕ) :
    let q := run queueStep (.init clients) events
    let m := q.clients k
    let free := (candidates m.msgID).find? fun id => !q.msgIdUsed m id
    (∀ id, free = some id → (mqttAsyncAssignMsgId q k).map Prod.fst = some id) ∧
      (free = none → 0 < m.msgID → (mqttAsyncAssignMsgId q k).map Prod.fst = some 0) ∧
      (free = none → m.msgID = 0 → ∀ rounds,
        assignLoop (q.msgIdUsed m) m.msgID rounds (nextMsgId m.msgID) = none) := by
  have hlast := (idsApart_run clients events k).last
  intro q m free
  have hresult : (mqttAsyncAssignMsgId q k).map Prod.fst =
      assignLoop (q.msgIdUsed m) m.msgID (maxMsgId + 1) (nextMsgId m.msgID) := by
    unfold mqttAsyncAssignMsgId
    rw [Option.map_map]
    show Option.map _ (assignLoop (q.msgIdUsed m) m.msgID (maxMsgId + 1) (nextMsgId m.msgID)) = _
    cases assignLoop (q.msgIdUsed m) m.msgID (maxMsgId + 1) (nextMsgId m.msgID) with
    | none => rfl
    | some id =>
        simp only [Option.map_some, Function.comp_apply, Option.some.injEq]
        split
        · rename_i hzero
          exact hzero.symm
        · rfl
  rw [hresult, assignLoop_eq hlast]
  refine ⟨fun id hid => ?_, fun hnone hpos => ?_, fun hnone hzero rounds => ?_⟩
  · show (match free with | some id => some id | none => _) = _
    rw [hid]
  · show (match free with | some id => some id | none => _) = _
    rw [hnone]
    exact if_neg hpos.ne'
  · rw [hzero]
    refine assignLoop_forever (fun id hpos hle => ?_) rounds Nat.one_pos (by decide)
    have hall := List.find?_eq_none.mp hnone id ?_
    · simpa using hall
    · rw [hzero]
      exact List.mem_append_left _ (List.mem_range'_1.mpr (by omega))

end CatDect.Mqtt
