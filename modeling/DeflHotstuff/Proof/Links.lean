import DeflHotstuff.Construction.Dissemination
import DeflHotstuff.Proof.Resending

namespace DeflHotstuff

open Verification

namespace Connection

variable {connection after : Connection} {event : ConnectionEvent}

/-- A step other than an answer adds frames to an open connection, opens one without frames or
leaves it closed. It resolves no handler. -/
theorem step_frames (wired : connection.Wired) (steps : connection.step event = some after)
    (silent : ∀ bytes, event ≠ .answer bytes) : after.answers = connection.answers ∧
      (after.phase = .connected → (connection.phase = .connected ∧
          ∃ sent, after.frames = connection.frames ++ sent) ∨
        (connection.phase ≠ .connected ∧ after.frames = [])) := by
  have closed (idle : connection.phase ≠ .connected) : connection.frames = [] := by
    rw [wired.frames, (wired.idle idle).1]
  cases event with
  | answer bytes => exact absurd rfl (silent bytes)
  | receive =>
      simp only [step] at steps
      split at steps
      · cases steps
      · unfold receive at steps
        split at steps
        · cases steps
        · rename_i waiting
          cases steps
          simp [waiting]
        · rename_i connected
          split at steps
          · cases steps
            exact ⟨rfl, fun _ => .inl ⟨connected, [], by simp⟩⟩
          · cases steps
  | transmit =>
      simp only [step] at steps
      split at steps
      · rename_i message rest connected idle buffer
        cases steps
        unfold transmit
        split <;> exact ⟨rfl, fun _ => .inl ⟨connected, [], by simp⟩⟩
      · cases steps
  | written succeeds =>
      obtain ⟨message, writing, rfl⟩ := Option.map_eq_some_iff.mp steps
      unfold written
      split
      · exact ⟨rfl, fun connected => .inl ⟨connected, [message], rfl⟩⟩
      · exact ⟨rfl, fun connected => by cases connected⟩
  | connect succeeds =>
      simp only [step, Option.ite_none_right_eq_some] at steps
      obtain ⟨connecting, steps⟩ := steps
      cases steps
      have idle : connection.phase ≠ .connected := by simp [connecting]
      exact ⟨rfl, fun _ => .inr ⟨idle, closed idle⟩⟩
  | send data =>
      simp only [step, Option.ite_none_right_eq_some] at steps
      obtain ⟨_, steps⟩ := steps
      cases steps
      exact ⟨rfl, fun connected => .inl ⟨connected, [], by simp⟩⟩
  | cancel handler =>
      simp only [step, Option.ite_none_right_eq_some] at steps
      obtain ⟨_, steps⟩ := steps
      cases steps
      exact ⟨rfl, fun connected => .inl ⟨connected, [], by simp⟩⟩
  | timer =>
      simp only [step, Option.ite_none_right_eq_some] at steps
      obtain ⟨_, steps⟩ := steps
      cases steps
      exact ⟨rfl, fun connected => by cases connected⟩
  | readFails =>
      simp only [step, Option.ite_none_right_eq_some] at steps
      obtain ⟨_, steps⟩ := steps
      cases steps
      exact ⟨rfl, fun connected => by cases connected⟩

/-- An answer takes the oldest frame, and it resolves no other handler than that of the frame. -/
theorem step_answer {bytes : List UInt8} (wired : connection.Wired)
    (steps : connection.step (.answer bytes) = some after) :
    ∃ frame rest, connection.frames = frame :: rest ∧ connection.phase = .connected ∧
      after.phase = .connected ∧ after.frames = rest ∧
      (after.answers = connection.answers ∨
        after.answers = connection.answers ++ [⟨frame.cancelHandler, frame, bytes⟩]) := by
  simp only [step] at steps
  split at steps
  · rename_i frame rest connected idle buffer frames
    have pending : connection.pendingReplies = frame :: rest := wired.frames ▸ frames
    cases steps
    refine ⟨frame, rest, frames, connected, ?_⟩
    simp only [reply, pending]
    refine ⟨connected, trivial, ?_⟩
    split
    · exact .inl rfl
    · exact .inr rfl
  · cases steps

/-- Only a cancellation closes a handler. -/
theorem step_closed (steps : connection.step event = some after)
    (silent : ∀ handler, event ≠ .cancel handler) : after.closed = connection.closed := by
  cases event with
  | cancel handler => exact absurd rfl (silent handler)
  | receive =>
      simp only [step] at steps
      split at steps
      · cases steps
      · unfold receive at steps
        grind
  | transmit =>
      simp only [step] at steps
      split at steps
      · cases steps
        unfold transmit
        split <;> rfl
      · cases steps
  | written succeeds =>
      obtain ⟨message, writing, rfl⟩ := Option.map_eq_some_iff.mp steps
      unfold written
      split <;> rfl
  | answer bytes =>
      simp only [step] at steps
      split at steps
      · cases steps
        unfold reply
        split <;> rfl
      · cases steps
  | _ =>
      simp only [step, Option.ite_none_right_eq_some] at steps
      obtain ⟨_, steps⟩ := steps
      cases steps
      rfl

/-- A dropped handler takes no message out of the queues. -/
theorem Keeps.cancel (keeps : connection.Keeps) (handler : Nat) :
    Keeps { connection with closed := handler :: connection.closed } := by
  have change : Change connection (.cancel handler)
      { connection with closed := handler :: connection.closed } :=
    .same nofun rfl rfl rfl (List.subset_cons_self _ _)
  exact keeps.step change

end Connection

namespace Link

variable {link after : Link} {event : ConnectionEvent}

/-- The frames that the runners acknowledged and have yet to hand on. -/
def hands (link : Link) : List (List UInt8) := link.runners.filterMap Runner.hand

/-- An acknowledgement on hand is in the hand of some runner. -/
theorem mem_hands {serialized : List UInt8} :
    serialized ∈ link.hands ↔ ∃ runner ∈ link.runners, runner.hand = some serialized := by
  simp [hands]

/-- What is on the way to a runner or in its hand is accepted. The frames without an answer are the
acknowledged ones and those that the last runner has yet to read. -/
structure Tied (link : Link) : Prop where
  keeps : link.connection.Keeps
  wired : link.connection.Wired
  unread : ∀ runner ∈ link.runners, ∀ message ∈ runner.unread, message ∈ link.connection.accepted
  held : ∀ serialized ∈ link.hands, ∃ message ∈ link.connection.accepted, message.data = serialized
  frames : link.connection.phase = .connected → ∃ runner rest, link.runners = runner :: rest ∧
    link.connection.frames = link.acks ++ runner.unread
  idle : link.connection.phase ≠ .connected → link.acks = []

/-- A dropped handler changes nothing that a peer sees. -/
theorem Tied.cancel (tied : link.Tied) (handler : Nat) : (link.cancel handler).Tied := by
  refine ⟨tied.keeps.cancel handler, ⟨tied.wired.frames, tied.wired.idle⟩, tied.unread, tied.held,
    tied.frames, tied.idle⟩

/-- A new link, which has no runner yet, is tied. -/
theorem new_tied : new.Tied where
  keeps := (Connection.reachable_keeps .start).1
  wired := (Connection.reachable_keeps .start).2
  unread := nofun
  held := nofun
  frames := nofun
  idle _ := rfl

/-- A new connection leaves what the runners hold. -/
theorem arrive_hands (link : Link) (after : Connection) :
    (link.arrive after).filterMap Runner.hand = link.hands := by
  unfold arrive hands
  split
  · simp
  · split <;> rename_i runners <;> simp [runners, List.filterMap_cons]

/-- What a runner has yet to read was on the way to a runner or was written to it. -/
theorem arrive_unread {connection : Connection} {runner : Runner} {message : InnerMessage}
    (inside : runner ∈ link.arrive connection) (isUnread : message ∈ runner.unread) :
    (∃ old ∈ link.runners, message ∈ old.unread) ∨ message ∈ connection.frames := by
  unfold arrive at inside
  split at inside
  · rcases List.mem_cons.mp inside with rfl | old
    · cases isUnread
    · exact .inl ⟨runner, old, isUnread⟩
  · split at inside
    · cases inside
    · rename_i last rest runners
      rw [runners]
      rcases List.mem_cons.mp inside with rfl | old
      · rcases List.mem_append.mp isUnread with old | new
        · exact .inl ⟨last, List.mem_cons_self, old⟩
        · exact .inr (List.mem_of_mem_drop new)
      · exact .inl ⟨runner, List.mem_cons_of_mem _ old, isUnread⟩

/-- The sender's side puts nothing into a runner's hand and acknowledges nothing. -/
theorem Tied.move (tied : link.Tied) (moves : link.move event = some after)
    (silent : ∀ bytes, event ≠ .answer bytes) : after.Tied ∧ after.hands = link.hands ∧
      after.acks ⊆ link.acks ∧ after.connection.answers = link.connection.answers := by
  obtain ⟨connection, steps, rfl⟩ := Option.map_eq_some_iff.mp moves
  obtain ⟨change, wired⟩ := Connection.step_change tied.wired steps
  obtain ⟨answers, frames⟩ := Connection.step_frames tied.wired steps silent
  have keeps := tied.keeps.step change
  have grows : link.connection.accepted ⊆ connection.accepted := by
    cases change with
    | accept data after queue accepted => rw [accepted]; exact List.subset_append_left _ _
    | move event after silent queue drops accepted => rw [accepted]; exact List.Subset.refl _
    | resolve bytes message after queue accepted => rw [accepted]; exact List.Subset.refl _
  refine ⟨⟨keeps, wired, ?_, ?_, ?_, ?_⟩, link.arrive_hands connection, ?_, answers⟩
  · intro runner inside message isUnread
    rcases arrive_unread inside isUnread with ⟨old, isOld, wasUnread⟩ | written
    · exact grows (tied.unread old isOld message wasUnread)
    · apply keeps.ordered.subset
      rw [wired.frames] at written
      exact List.mem_append_left _ (List.mem_append_left _ (List.mem_append_left _ written))
  · intro serialized isHeld
    unfold hands at isHeld
    rw [arrive_hands] at isHeld
    obtain ⟨message, accepted, same⟩ := tied.held serialized isHeld
    exact ⟨message, grows accepted, same⟩
  · intro connected
    change connection.phase = .connected at connected
    dsimp only
    unfold arrive
    rcases frames connected with ⟨wasConnected, more, isMore⟩ | ⟨wasIdle, empty⟩
    · obtain ⟨runner, rest, runners, whole⟩ := tied.frames wasConnected
      refine ⟨{ runner with unread := runner.unread ++ more }, rest, ?_, ?_⟩
      · simp [wasConnected, runners, isMore]
      · simp [connected, isMore, whole]
    · refine ⟨⟨[], none⟩, link.runners, ?_, ?_⟩
      · simp [wasIdle, connected]
      · simp [connected, empty, tied.idle wasIdle]
  · intro disconnected
    change connection.phase ≠ .connected at disconnected
    simp [disconnected]
  · dsimp only
    split
    · exact List.Subset.refl _
    · exact List.nil_subset _

/-- An answer that arrives was acknowledged. -/
theorem Tied.answer (tied : link.Tied) (answers : link.answer = some after) :
    after.Tied ∧ after.hands = link.hands ∧ after.acks ⊆ link.acks ∧
      ∀ answer ∈ after.connection.answers, answer ∈ link.connection.answers ∨
        answer.frame ∈ link.acks := by
  unfold Link.answer at answers
  split at answers
  · cases answers
  · rename_i ack rest acks
    obtain ⟨connection, steps, rfl⟩ := Option.map_eq_some_iff.mp answers
    obtain ⟨change, wired⟩ := Connection.step_change tied.wired steps
    obtain ⟨frame, frames, isFirst, connected, still, isRest, resolves⟩ :=
      Connection.step_answer tied.wired steps
    obtain ⟨runner, runners, isRunner, whole⟩ := tied.frames connected
    rw [isFirst, acks, List.cons_append, List.cons.injEq] at whole
    obtain ⟨rfl, whole⟩ := whole
    have accepted : connection.accepted = link.connection.accepted := by
      cases change with
      | move event after silent queue drops accepted => exact accepted
      | resolve bytes message after queue accepted => exact accepted
    refine ⟨⟨tied.keeps.step change, wired, ?_, ?_, ?_, ?_⟩, rfl, ?_, ?_⟩
    · dsimp only
      rw [accepted]
      exact tied.unread
    · dsimp only
      rw [accepted]
      exact tied.held
    · exact fun _ => ⟨runner, runners, isRunner, isRest.trans whole⟩
    · exact fun closed => absurd still closed
    · rw [acks]
      exact List.subset_cons_self _ _
    · intro answer inside
      rcases resolves with same | new
      · exact .inl (same ▸ inside)
      · rw [show connection.answers = _ from new] at inside
        rcases List.mem_append.mp inside with old | isNew
        · exact .inl old
        · right
          cases List.mem_singleton.mp isNew
          rw [acks]
          exact List.mem_cons_self

/-- A runner takes a frame in hand when it acknowledges it. -/
theorem Tied.read {index : Nat} (tied : link.Tied) (reads : link.read index = some after) :
    after.Tied ∧ link.hands ⊆ after.hands ∧ after.connection = link.connection ∧
      ∀ frame ∈ after.acks, frame ∈ link.acks ∨ frame.data ∈ after.hands := by
  unfold Link.read at reads
  split at reads
  · rename_i frame rest found
    cases reads
    obtain ⟨inside, isRunner⟩ := List.getElem?_eq_some_iff.mp found
    have waits := tied.unread ⟨frame :: rest, none⟩ (List.mem_of_getElem? found)
    refine ⟨⟨tied.keeps, tied.wired, ?_, ?_, ?_, ?_⟩, ?_, rfl, ?_⟩
    · intro runner isIn message isUnread
      rcases List.mem_or_eq_of_mem_set isIn with old | rfl
      · exact tied.unread runner old message isUnread
      · exact waits message (List.mem_cons_of_mem _ isUnread)
    · intro serialized isHeld
      obtain ⟨runner, isIn, inHand⟩ := mem_hands.mp isHeld
      rcases List.mem_or_eq_of_mem_set isIn with old | rfl
      · exact tied.held serialized (mem_hands.mpr ⟨runner, old, inHand⟩)
      · exact ⟨frame, waits frame List.mem_cons_self, Option.some.inj inHand⟩
    · intro connected
      obtain ⟨runner, runners, isLast, frames⟩ := tied.frames connected
      by_cases last : index = 0
      · subst last
        rw [isLast] at found
        cases found
        refine ⟨⟨rest, some frame.data⟩, runners, by simp [isLast], ?_⟩
        change link.connection.phase = .connected at connected
        simp [connected, frames]
      · obtain ⟨earlier, rfl⟩ := Nat.exists_eq_succ_of_ne_zero last
        exact ⟨runner, runners.set earlier ⟨rest, some frame.data⟩, by simp [isLast],
          by simp [frames]⟩
    · intro disconnected
      change link.connection.phase ≠ .connected at disconnected
      simp [disconnected, tied.idle disconnected]
    · intro serialized held
      obtain ⟨runner, isIn, inHand⟩ := mem_hands.mp held
      obtain ⟨place, within, rfl⟩ := List.mem_iff_getElem.mp isIn
      have other : index ≠ place := by
        rintro rfl
        rw [isRunner] at inHand
        cases inHand
      apply mem_hands.mpr
      refine ⟨link.runners[place], ?_, inHand⟩
      apply List.mem_iff_getElem.mpr
      exact ⟨place, by simpa using within, by simp [other]⟩
    · intro other isAck
      dsimp only at isAck
      split at isAck
      · rcases List.mem_append.mp isAck with old | new
        · exact .inl old
        · right
          cases List.mem_singleton.mp new
          exact mem_hands.mpr ⟨_, List.mem_set inside _, rfl⟩
      · exact .inl isAck
  · cases reads

/-- A runner hands on what it has in hand. -/
theorem Tied.release {index : Nat} {serialized : List UInt8} (tied : link.Tied)
    (releases : link.release index = some (serialized, after)) :
    after.Tied ∧ serialized ∈ link.hands ∧ after.connection = link.connection ∧
      after.acks = link.acks ∧ ∀ other ∈ link.hands, other = serialized ∨ other ∈ after.hands := by
  unfold Link.release at releases
  split at releases
  · rename_i unread inHand found
    cases releases
    obtain ⟨inside, isRunner⟩ := List.getElem?_eq_some_iff.mp found
    have waits := tied.unread ⟨unread, some serialized⟩ (List.mem_of_getElem? found)
    refine ⟨⟨tied.keeps, tied.wired, ?_, ?_, ?_, tied.idle⟩, ?_, rfl, rfl, ?_⟩
    · intro runner isIn message isUnread
      rcases List.mem_or_eq_of_mem_set isIn with old | rfl
      · exact tied.unread runner old message isUnread
      · exact waits message isUnread
    · intro other isHeld
      obtain ⟨runner, isIn, hasHand⟩ := mem_hands.mp isHeld
      rcases List.mem_or_eq_of_mem_set isIn with old | rfl
      · exact tied.held other (mem_hands.mpr ⟨runner, old, hasHand⟩)
      · cases hasHand
    · intro connected
      obtain ⟨runner, runners, isLast, frames⟩ := tied.frames connected
      cases index with
      | zero =>
          rw [isLast] at found
          cases found
          exact ⟨⟨unread, none⟩, runners, by simp [isLast], frames⟩
      | succ earlier =>
          exact ⟨runner, runners.set earlier ⟨unread, none⟩, by simp [isLast], frames⟩
    · exact mem_hands.mpr ⟨_, List.mem_of_getElem? found, rfl⟩
    · intro other held
      obtain ⟨runner, isIn, hasHand⟩ := mem_hands.mp held
      obtain ⟨place, within, rfl⟩ := List.mem_iff_getElem.mp isIn
      by_cases same : index = place
      · subst same
        rw [isRunner] at hasHand
        exact .inl (Option.some.inj hasHand).symm
      · right
        apply mem_hands.mpr
        refine ⟨link.runners[place], ?_, hasHand⟩
        apply List.mem_iff_getElem.mpr
        exact ⟨place, by simpa using within, by simp [same]⟩
  · cases releases

end Link

end DeflHotstuff
