import DeflHotstuff.Construction.ReliableSender
import Mathlib.Data.List.Nodup

namespace DeflHotstuff

open Verification

namespace Connection

variable {connection after : Connection} {event : ConnectionEvent} {message : InnerMessage}

/-- The messages without an answer in the order in which they go out. -/
def queued (connection : Connection) : List InnerMessage :=
  connection.pendingReplies ++ connection.writing.toList ++ connection.buffer ++
    connection.channel

/-- The handlers that are resolved. -/
def resolved (connection : Connection) : List Nat := connection.answers.map Answer.handler

/-- The peer has yet to answer exactly the messages without a reply, and only while connected. -/
structure Wired (connection : Connection) : Prop where
  frames : connection.frames = connection.pendingReplies
  idle : connection.phase ≠ .connected →
    connection.pendingReplies = [] ∧ connection.writing = none

/-- What a step does to the messages, wherever they are. -/
inductive Change (connection : Connection) : ConnectionEvent → Connection → Prop
  | accept (data : List UInt8) (after : Connection)
      (queue : after.queued = connection.queued ++ [⟨data, connection.accepted.length⟩])
      (accepted : after.accepted = connection.accepted ++ [⟨data, connection.accepted.length⟩])
      (answers : after.answers = connection.answers) (closed : after.closed = connection.closed) :
      Change connection (.send data) after
  | move (event : ConnectionEvent) (after : Connection)
      (silent : ∀ data, event ≠ .send data)
      (queue : after.queued.Sublist connection.queued)
      (drops : ∀ message ∈ connection.queued, message ∉ after.queued →
        message.cancelHandler ∈ connection.closed)
      (accepted : after.accepted = connection.accepted)
      (answers : after.answers = connection.answers)
      (closed : connection.closed ⊆ after.closed) : Change connection event after
  | resolve (bytes : List UInt8) (message : InnerMessage) (after : Connection)
      (queue : connection.queued = message :: after.queued)
      (accepted : after.accepted = connection.accepted)
      (answers : after.answers = connection.answers ++ [⟨message.cancelHandler, message, bytes⟩])
      (closed : after.closed = connection.closed) : Change connection (.answer bytes) after

/-- A step that leaves the queues as they are drops nothing. -/
theorem Change.same (silent : ∀ data, event ≠ .send data)
    (queue : after.queued = connection.queued) (accepted : after.accepted = connection.accepted)
    (answers : after.answers = connection.answers) (closed : connection.closed ⊆ after.closed) :
    Change connection event after := by
  apply Change.move _ _ silent _ _ accepted answers closed
  · rw [queue]
  · intro message inside gone
    rw [queue] at gone
    exact absurd inside gone

/-- While no write is awaited, going back to the buffer changes no order. -/
theorem queued_disconnect (connection : Connection) (idle : connection.writing = none) :
    connection.disconnect.queued = connection.queued := by
  simp [disconnect, queued, idle]

/-- A connection that ends has no frame to answer. -/
theorem disconnect_wired (connection : Connection) (idle : connection.writing = none) :
    connection.disconnect.Wired := by
  constructor <;> simp [disconnect, idle]

/-- Going back to the buffer drops nothing. -/
theorem disconnect_change (silent : ∀ data, event ≠ .send data)
    (idle : connection.writing = none) : Change connection event connection.disconnect := by
  apply Change.same silent
  · exact queued_disconnect connection idle
  · simp [disconnect]
  · simp [disconnect]
  · simp [disconnect]

/-- A message that is written keeps its place, and a cancelled one is dropped. -/
theorem transmit_change (wired : connection.Wired) {rest : List InnerMessage}
    (connected : connection.phase = .connected) (idle : connection.writing = none)
    (buffer : connection.buffer = message :: rest) :
    Change connection .transmit (connection.transmit message rest) ∧
      (connection.transmit message rest).Wired := by
  unfold transmit
  split
  · rename_i cancelled
    constructor
    · apply Change.move
      · simp
      · simp [queued, buffer]
      · intro other inside gone
        have isMessage : other = message := by
          simp only [queued, buffer, List.mem_append, List.mem_cons] at inside gone
          grind
        rwa [isMessage]
      · rfl
      · rfl
      · simp
    · exact ⟨wired.frames, wired.idle⟩
  · constructor
    · apply Change.same <;> simp [queued, buffer, idle]
    · exact ⟨wired.frames, fun closed => absurd connected closed⟩

/-- A written message goes behind those without a reply, and after a failed write all go back. -/
theorem written_change (wired : connection.Wired) (succeeds : Bool)
    (writing : connection.writing = some message) :
    Change connection (.written succeeds) (connection.written message succeeds) ∧
      (connection.written message succeeds).Wired := by
  have connected : connection.phase = .connected := by
    by_contra closed
    rw [(wired.idle closed).2] at writing
    cases writing
  unfold written
  split
  · constructor
    · apply Change.same <;> simp [queued, writing]
    · constructor
      · simp [wired.frames]
      · simp [connected]
  · constructor
    · apply Change.same <;> simp [queued, disconnect, writing]
    · exact disconnect_wired _ rfl

/-- A message from the channel goes to the buffer or on its way. -/
theorem receive_change (wired : connection.Wired) {rest : List InnerMessage}
    (channel : connection.channel = message :: rest)
    (receives : connection.receive message rest = some after) :
    Change connection .receive after ∧ after.Wired := by
  unfold receive at receives
  split at receives
  · cases receives
  · rename_i waiting
    cases receives
    obtain ⟨empty, idle⟩ := wired.idle (by simp [waiting])
    constructor
    · apply Change.move
      · simp
      · have joined : connection.buffer ++ message :: rest =
            (connection.buffer ++ [message]) ++ rest := List.append_cons ..
        simp only [queued, channel, empty, idle, Option.toList_none, List.nil_append, joined]
        exact List.filter_sublist.append_right rest
      · intro other inside gone
        simp only [queued, channel, empty, idle, List.mem_append, List.mem_filter, List.mem_cons]
          at inside gone
        grind
      · rfl
      · rfl
      · simp
    · exact ⟨wired.frames, fun _ => ⟨empty, idle⟩⟩
  · rename_i connected
    split at receives
    · cases receives
      constructor
      · apply Change.same <;> simp [queued, channel]
      · exact ⟨wired.frames, wired.idle⟩
    · cases receives

/-- An answer resolves the oldest message without a reply. -/
theorem reply_change (wired : connection.Wired) {frame : InnerMessage} {rest : List InnerMessage}
    (bytes : List UInt8) (connected : connection.phase = .connected)
    (idle : connection.writing = none) (frames : connection.frames = frame :: rest) :
    Change connection (.answer bytes) ({ connection with frames := rest }.reply frame bytes) ∧
      ({ connection with frames := rest }.reply frame bytes).Wired := by
  have pending : connection.pendingReplies = frame :: rest := wired.frames ▸ frames
  simp only [reply, pending]
  by_cases cancelled : frame.cancelHandler ∈ connection.closed
  · simp only [cancelled, if_true]
    constructor
    · apply Change.move
      · simp
      · simp [queued, pending]
      · intro other inside gone
        have isFrame : other = frame := by
          simp only [queued, pending, List.mem_append, List.mem_cons] at inside gone
          grind
        rwa [isFrame]
      · rfl
      · rfl
      · simp
    · constructor <;> simp [connected]
  · simp only [cancelled, if_false]
    constructor
    · apply Change.resolve bytes frame <;> simp [queued, pending]
    · constructor <;> simp [connected]

/-- A step of the connection is one of the changes. -/
theorem step_change (wired : connection.Wired) (steps : connection.step event = some after) :
    Change connection event after ∧ after.Wired := by
  cases event with
  | send data =>
      simp only [step, Option.ite_none_right_eq_some] at steps
      obtain ⟨_, steps⟩ := steps
      cases steps
      constructor
      · apply Change.accept <;> simp [queued]
      · exact ⟨wired.frames, wired.idle⟩
  | cancel handler =>
      simp only [step, Option.ite_none_right_eq_some] at steps
      obtain ⟨_, steps⟩ := steps
      cases steps
      constructor
      · apply Change.same <;> simp [queued]
      · exact ⟨wired.frames, wired.idle⟩
  | connect succeeds =>
      simp only [step, Option.ite_none_right_eq_some] at steps
      obtain ⟨connecting, steps⟩ := steps
      cases steps
      constructor
      · apply Change.same <;> simp [queued]
      · have idle := wired.idle (by simp [connecting])
        exact ⟨wired.frames, fun _ => idle⟩
  | timer =>
      simp only [step, Option.ite_none_right_eq_some] at steps
      obtain ⟨waiting, steps⟩ := steps
      cases steps
      constructor
      · apply Change.same <;> simp [queued]
      · have idle := wired.idle (by simp [waiting])
        exact ⟨wired.frames, fun _ => idle⟩
  | receive =>
      simp only [step] at steps
      split at steps
      · cases steps
      · rename_i message rest channel
        exact receive_change wired channel steps
  | transmit =>
      simp only [step] at steps
      split at steps
      · rename_i message rest connected idle buffer
        cases steps
        exact transmit_change wired connected idle buffer
      · cases steps
  | written succeeds =>
      obtain ⟨message, writing, rfl⟩ := Option.map_eq_some_iff.mp steps
      exact written_change wired succeeds writing
  | answer bytes =>
      simp only [step] at steps
      split at steps
      · rename_i frame rest connected idle buffer frames
        cases steps
        exact reply_change wired bytes connected idle frames
      · cases steps
  | readFails =>
      simp only [step, Option.ite_none_right_eq_some] at steps
      obtain ⟨⟨_, idle, _⟩, steps⟩ := steps
      cases steps
      exact ⟨disconnect_change (by simp) idle, disconnect_wired _ idle⟩

/-- The queues hold the accepted messages in order, except for the resolved and cancelled ones. -/
structure Keeps (connection : Connection) : Prop where
  numbered : connection.accepted.map InnerMessage.cancelHandler =
    List.range connection.accepted.length
  ordered : connection.queued.Sublist connection.accepted
  kept : ∀ message ∈ connection.accepted, message.cancelHandler ∉ connection.closed →
    message.cancelHandler ∈ connection.resolved ∨ message ∈ connection.queued
  unresolved : ∀ message ∈ connection.queued, message.cancelHandler ∉ connection.resolved
  once : connection.resolved.Nodup
  proper : ∀ answer ∈ connection.answers, answer.frame ∈ connection.accepted ∧
    answer.frame.cancelHandler = answer.handler

/-- The handlers of the accepted messages are counted up. -/
theorem Keeps.handler_lt (keeps : connection.Keeps) (inside : message ∈ connection.accepted) :
    message.cancelHandler < connection.accepted.length := by
  apply List.mem_range.mp
  rw [← keeps.numbered]
  exact List.mem_map_of_mem inside

/-- Only handlers of accepted messages are resolved. -/
theorem Keeps.resolved_lt (keeps : connection.Keeps) {handler : Nat}
    (inside : handler ∈ connection.resolved) : handler < connection.accepted.length := by
  obtain ⟨answer, isAnswer, rfl⟩ := List.mem_map.mp inside
  obtain ⟨accepted, same⟩ := keeps.proper answer isAnswer
  rw [← same]
  exact keeps.handler_lt accepted

/-- No two messages in the queues share a handler. -/
theorem Keeps.distinct (keeps : connection.Keeps) :
    (connection.queued.map InnerMessage.cancelHandler).Nodup := by
  apply (keeps.ordered.map InnerMessage.cancelHandler).nodup
  rw [keeps.numbered]
  exact List.nodup_range

/-- A change keeps the queues in the order of acceptance. -/
theorem Keeps.step (keeps : connection.Keeps) (change : Change connection event after) :
    after.Keeps := by
  cases change with
  | accept data after queue accepted answers closed =>
      have resolved : after.resolved = connection.resolved := by simp [resolved, answers]
      constructor
      · simp [accepted, keeps.numbered, List.range_succ]
      · rw [queue, accepted]
        exact keeps.ordered.append_right _
      · simp only [accepted, queue, closed, resolved, List.mem_append, List.mem_singleton]
        rintro message (old | rfl) unclosed
        · exact (keeps.kept message old unclosed).imp_right .inl
        · simp
      · simp only [queue, resolved, List.mem_append, List.mem_singleton]
        rintro message (old | rfl) known
        · exact keeps.unresolved message old known
        · exact Nat.lt_irrefl _ (keeps.resolved_lt known)
      · rw [resolved]
        exact keeps.once
      · rw [answers, accepted]
        intro answer inside
        obtain ⟨old, same⟩ := keeps.proper answer inside
        exact ⟨List.mem_append_left _ old, same⟩
  | move event after silent queue drops accepted answers closed =>
      have resolved : after.resolved = connection.resolved := by simp [resolved, answers]
      constructor
      · rw [accepted]
        exact keeps.numbered
      · rw [accepted]
        exact queue.trans keeps.ordered
      · rw [accepted, resolved]
        intro message inside unclosed
        apply (keeps.kept message inside fun old => unclosed (closed old)).imp_right
        intro waits
        by_contra gone
        exact unclosed (closed (drops message waits gone))
      · rw [resolved]
        intro message inside
        exact keeps.unresolved message (queue.subset inside)
      · rw [resolved]
        exact keeps.once
      · rw [answers, accepted]
        exact keeps.proper
  | resolve bytes message after queue accepted answers closed =>
      have resolved : after.resolved = connection.resolved ++ [message.cancelHandler] := by
        simp [resolved, answers]
      have isQueued : message ∈ connection.queued := by simp [queue]
      have distinct := keeps.distinct
      rw [queue, List.map_cons, List.nodup_cons] at distinct
      constructor
      · rw [accepted]
        exact keeps.numbered
      · rw [accepted]
        apply List.Sublist.trans _ keeps.ordered
        simp [queue]
      · rw [accepted, resolved, closed]
        intro other inside unclosed
        have before := keeps.kept other inside unclosed
        rw [queue] at before
        simp only [List.mem_cons, List.mem_append] at before ⊢
        grind
      · rw [resolved]
        intro other inside known
        rcases List.mem_append.mp known with old | new
        · apply keeps.unresolved other _ old
          simp [queue, inside]
        · rw [← List.mem_singleton.mp new] at distinct
          exact distinct.1 (List.mem_map_of_mem inside)
      · rw [resolved]
        apply keeps.once.append (List.nodup_singleton _)
        simpa using keeps.unresolved message isQueued
      · rw [answers, accepted]
        intro answer inside
        rcases List.mem_append.mp inside with old | new
        · exact keeps.proper answer old
        · rw [List.mem_singleton.mp new]
          exact ⟨keeps.ordered.subset isQueued, rfl⟩

/-- The queues of a reachable connection keep the accepted messages. -/
theorem reachable_keeps (reachable : machine.Reachable connection) :
    connection.Keeps ∧ connection.Wired := by
  apply reachable.invariant fun connection => connection.Keeps ∧ connection.Wired
  · constructor
    · constructor <;> simp [machine, new, queued, resolved]
    · constructor <;> simp [machine, new]
  · intro connection event after _ holds steps
    obtain ⟨keeps, wired⟩ := holds
    obtain ⟨change, wired⟩ := step_change wired steps
    exact ⟨keeps.step change, wired⟩

/-- The data that an event hands to the connection. -/
def sentData : ConnectionEvent → List (List UInt8)
  | .send data => [data]
  | _ => []

/-- A send appends its data to the accepted ones. -/
theorem Change.data (change : Change connection event after) :
    after.accepted.map InnerMessage.data =
      connection.accepted.map InnerMessage.data ++ sentData event := by
  cases change with
  | accept data after queue accepted answers closed => simp [accepted, sentData]
  | move event after silent queue drops accepted answers closed =>
      rw [accepted]
      cases event with
      | send data => exact absurd rfl (silent data)
      | _ => simp [sentData]
  | resolve bytes message after queue accepted answers closed => simp [accepted, sentData]

/-- Every accepted message that is not cancelled was answered, or it is being written, or it is in
exactly one of the three queues, and these keep the order of sending. A handler is resolved at most
once, and only by the answer to a frame of its own message. -/
theorem accepted_kept {events : List ConnectionEvent}
    (executed : machine.execute machine.initial events = some connection) :
    connection.accepted.map InnerMessage.data = events.flatMap sentData ∧
    (∀ message ∈ connection.accepted, message.cancelHandler ∉ connection.closed →
      (message.cancelHandler ∈ connection.resolved ∧ message ∉ connection.queued) ∨
      (message.cancelHandler ∉ connection.resolved ∧
        connection.pendingReplies.count message + connection.writing.toList.count message +
          connection.buffer.count message + connection.channel.count message = 1)) ∧
    (connection.pendingReplies ++ connection.writing.toList ++ connection.buffer ++
      connection.channel).Sublist connection.accepted ∧
    connection.resolved.Nodup ∧
    ∀ answer ∈ connection.answers, answer.frame ∈ connection.accepted ∧
      answer.frame.cancelHandler = answer.handler := by
  have data : connection.Wired ∧
      connection.accepted.map InnerMessage.data = events.flatMap sentData := by
    apply machine.execute_history (fun taken connection => connection.Wired ∧
      connection.accepted.map InnerMessage.data = taken.flatMap sentData) _ [] _ executed
    · intro taken connection event after holds steps
      obtain ⟨change, wired⟩ := step_change holds.1 steps
      exact ⟨wired, by rw [change.data, holds.2, List.flatMap_append, List.flatMap_singleton]⟩
    · constructor
      · constructor <;> simp [machine, new]
      · rfl
  obtain ⟨keeps, _⟩ := reachable_keeps (.execute executed)
  refine ⟨data.2, ?_, keeps.ordered, keeps.once, keeps.proper⟩
  intro message inside unclosed
  rcases keeps.kept message inside unclosed with resolved | waits
  · left
    exact ⟨resolved, fun waits => keeps.unresolved message waits resolved⟩
  · right
    have once : connection.queued.count message = 1 :=
      List.count_eq_one_of_mem (List.Nodup.of_map _ keeps.distinct) waits
    rw [queued, List.count_append, List.count_append, List.count_append] at once
    exact ⟨keeps.unresolved message waits, once⟩

end Connection

namespace Plain

/-- The write of the second message fails, and both go out again after the next connection. -/
def retransmission : List ConnectionEvent := [
  .send [1], .send [2], .connect true, .receive, .transmit, .written true, .receive, .transmit,
  .written false, .connect true, .transmit, .written true, .transmit, .written true, .answer [7]]

/-- The second message is queued again after the first one was answered. -/
theorem accepted_kept_retransmission : ∃ connection,
    Connection.machine.execute Connection.machine.initial retransmission = some connection ∧
      connection.resolved = [0] ∧ connection.queued = [⟨[2], 1⟩] ∧
      ∀ message ∈ connection.accepted, message.cancelHandler ∉ connection.closed →
        (message.cancelHandler ∈ connection.resolved ∧ message ∉ connection.queued) ∨
        (message.cancelHandler ∉ connection.resolved ∧
          connection.pendingReplies.count message + connection.writing.toList.count message +
            connection.buffer.count message + connection.channel.count message = 1) := by
  have taken : (Connection.machine.execute Connection.machine.initial retransmission).map
      (fun connection => (connection.resolved, connection.queued)) =
        some ([0], [⟨[2], 1⟩]) := by
    decide +kernel
  obtain ⟨connection, executed, outcome⟩ := Option.map_eq_some_iff.mp taken
  obtain ⟨resolved, queued⟩ := Prod.mk.inj outcome
  exact ⟨connection, executed, resolved, queued, (Connection.accepted_kept executed).2.1⟩

/-- While its write is awaited, a message without an answer is in none of the three queues. -/
theorem accepted_kept_writing : ∃ connection, ∃ message ∈ connection.accepted,
    Connection.machine.execute Connection.machine.initial
        [.send [1], .connect true, .receive, .transmit] = some connection ∧
      message.cancelHandler ∉ connection.closed ∧ message.cancelHandler ∉ connection.resolved ∧
      message ∉ connection.pendingReplies ∧ message ∉ connection.buffer ∧
      message ∉ connection.channel :=
  ⟨⟨.connected, [], [], some ⟨[1], 0⟩, [], [], [], [⟨[1], 0⟩], []⟩, ⟨[1], 0⟩, by decide, rfl,
    by decide, by decide, by decide, by decide, by decide⟩

end Plain

end DeflHotstuff
