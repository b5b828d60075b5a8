import DeflHotstuff.Proof.Dissemination
import DeflHotstuff.Proof.Survival

namespace DeflHotstuff

open Verification

/-- A step of a link on the side of its sender. -/
structure Link.Local (link after : Link) : Prop where
  keeps : link.connection.Keeps ∧ link.connection.Wired →
    after.connection.Keeps ∧ after.connection.Wired
  tied : link.Tied → after.Tied ∧ after.hands = link.hands ∧ after.acks ⊆ link.acks ∧
    after.connection.answers = link.connection.answers

namespace Link

variable {link after : Link}

/-- A link that stays makes a local move. -/
theorem Local.refl (link : Link) : link.Local link :=
  ⟨id, fun tied => ⟨tied, rfl, List.Subset.refl _, rfl⟩⟩

/-- A move keeps the messages of the connection and their frames. -/
theorem move_keeps {event : ConnectionEvent}
    (keeps : link.connection.Keeps ∧ link.connection.Wired) (moves : link.move event = some after) :
    after.connection.Keeps ∧ after.connection.Wired := by
  obtain ⟨connection, steps, rfl⟩ := Option.map_eq_some_iff.mp moves
  obtain ⟨change, wired⟩ := Connection.step_change keeps.2 steps
  exact ⟨keeps.1.step change, wired⟩

/-- A move without an answer is local. -/
theorem local_move {event : ConnectionEvent} (moves : link.move event = some after)
    (silent : ∀ bytes, event ≠ .answer bytes) : link.Local after :=
  ⟨fun keeps => move_keeps keeps moves, fun tied => tied.move moves silent⟩

/-- A cancellation is local. -/
theorem local_cancel (link : Link) (handler : Nat) : link.Local (link.cancel handler) :=
  ⟨fun keeps => ⟨keeps.1.cancel handler, ⟨keeps.2.frames, keeps.2.idle⟩⟩,
    fun tied => ⟨tied.cancel handler, rfl, List.Subset.refl _, rfl⟩⟩

/-- A read leaves the sender's end alone. -/
theorem read_connection {index : Nat} (reads : link.read index = some after) :
    after.connection = link.connection := by
  unfold Link.read at reads
  split at reads <;> cases reads
  rfl

/-- A release leaves the sender's end alone. -/
theorem release_connection {index : Nat} {serialized : List UInt8}
    (releases : link.release index = some (serialized, after)) :
    after.connection = link.connection := by
  unfold Link.release at releases
  split at releases <;> cases releases
  rfl

end Link

/-- A runner takes in hand what it acknowledges, and an answer was acknowledged. -/
structure Link.Advances (link after : Link) : Prop where
  tied : after.Tied
  hands : link.hands ⊆ after.hands
  acks : ∀ frame ∈ after.acks, frame ∈ link.acks ∨ frame.data ∈ after.hands
  answers : ∀ answer ∈ after.connection.answers,
    answer ∈ link.connection.answers ∨ answer.frame ∈ link.acks

/-- A link that stays advances. -/
theorem Link.Advances.refl {link : Link} (tied : link.Tied) : link.Advances link :=
  ⟨tied, List.Subset.refl _, fun _ => .inl, fun _ => .inl⟩

/-- A local move advances the link. -/
theorem Link.Local.advances {link after : Link} (isLocal : link.Local after) (tied : link.Tied) :
    link.Advances after := by
  obtain ⟨next, hands, acks, answers⟩ := isLocal.tied tied
  exact ⟨next, hands ▸ List.Subset.refl _, fun _ acked => .inl (acks acked),
    fun _ answered => .inl (answers ▸ answered)⟩

section

variable [Crypto]

namespace Mempool

variable {system : MempoolSystem} {name : PublicKey} {mempool after : Mempool}

/-- A turn of the node moves its links on the side of the sender only. -/
theorem step_local {event : MempoolEvent} (steps : mempool.step system name event = some after)
    (peer : PublicKey) : (mempool.links peer).Local (after.links peer) := by
  have relinked {other : PublicKey} {link : Link} (isLocal : (mempool.links other).Local link) :
      (mempool.links peer).Local (Function.update mempool.links other link peer) := by
    by_cases same : peer = other
    · subst same
      rw [Function.update_self]
      exact isLocal
    · rw [Function.update_of_ne same]
      exact .refl _
  cases event with
  | client message =>
      dsimp only [Mempool.step] at steps
      split at steps
      · cases steps
        exact .refl _
      · rw [Option.ite_none_right_eq_some] at steps
        obtain ⟨_, steps⟩ := steps
        cases steps
        exact .refl _
  | transaction =>
      dsimp only [Mempool.step] at steps
      split at steps <;> cases steps
      exact .refl _
  | timer =>
      dsimp only [Mempool.step] at steps
      split at steps <;> cases steps
      exact .refl _
  | broadcast =>
      dsimp only [Mempool.step, Mempool.broadcast] at steps
      split at steps
      · cases steps
      · rw [Option.ite_none_right_eq_some] at steps
        obtain ⟨_, steps⟩ := steps
        obtain ⟨waiter, _, rfl⟩ := Option.map_eq_some_iff.mp steps
        exact .refl _
      · obtain ⟨link, moves, rfl⟩ := Option.map_eq_some_iff.mp steps
        exact relinked (Link.local_move moves nofun)
  | receive =>
      obtain ⟨waiter, _, rfl⟩ := Option.map_eq_some_iff.mp steps
      exact .refl _
  | complete other =>
      dsimp only [Mempool.step, Mempool.complete] at steps
      split at steps
      · cases steps
      · rw [Option.ite_none_right_eq_some] at steps
        obtain ⟨waiter, _, steps⟩ := Option.bind_eq_some_iff.mp steps.2
        rw [Option.ite_none_right_eq_some] at steps
        obtain ⟨_, steps⟩ := steps
        cases steps
        dsimp only
        split
        · exact Link.local_cancel _ _
        · exact .refl _
  | exhausted =>
      obtain ⟨waiter, _, rfl⟩ := Option.map_eq_some_iff.mp steps
      exact .refl _
  | process =>
      obtain ⟨batch, _, rfl⟩ := Option.map_eq_some_iff.mp steps
      exact .refl _
  | processPeer =>
      dsimp only [Mempool.step] at steps
      split at steps <;> cases steps
      exact .refl _
  | message dispatched =>
      obtain ⟨same, _⟩ := dispatch_same steps
      rw [same]
      exact .refl _
  | block block =>
      cases steps
      exact .refl _
  | connection other event =>
      dsimp only [Mempool.step] at steps
      split at steps
      · cases steps
      · cases steps
      · cases steps
      · rename_i noSend noCancel noAnswer
        obtain ⟨link, moves, rfl⟩ := Option.map_eq_some_iff.mp steps
        exact relinked (Link.local_move moves noAnswer)
  | answer peer => cases steps
  | read peer index => cases steps
  | forward peer index => cases steps

end Mempool

namespace MempoolSystem

variable {system : MempoolSystem} {nodes after : PublicKey → Mempool}

/-- The turns of the system. -/
inductive Turned (system : MempoolSystem) (nodes : PublicKey → Mempool) :
    (PublicKey → Mempool) → Prop
  | own (name : PublicKey) (event : MempoolEvent) (mempool : Mempool)
      (steps : (nodes name).step system name event = some mempool) :
      Turned system nodes (Function.update nodes name mempool)
  | answer (name peer : PublicKey) (link : Link)
      (answers : system.answer ((nodes name).links peer) peer = some link) :
      Turned system nodes (Function.update nodes name ((nodes name).relink peer link))
  | read (name peer : PublicKey) (index : Nat) (link : Link)
      (reads : ((nodes name).links peer).read index = some link) :
      Turned system nodes (Function.update nodes name ((nodes name).relink peer link))
  | forward (name peer : PublicKey) (index : Nat) (serialized : List UInt8) (link : Link)
      (mempool : Mempool) (distinct : peer ≠ name)
      (releases : ((nodes name).links peer).release index = some (serialized, link))
      (dispatches : (nodes peer).dispatch system serialized = some mempool) :
      Turned system nodes (Function.update (Function.update nodes peer mempool) name
        ((nodes name).relink peer link))

/-- A step of the system is a turn of one member. -/
theorem step_turned {turn : PublicKey × MempoolEvent}
    (steps : system.step nodes turn = some after) : Turned system nodes after := by
  obtain ⟨name, event⟩ := turn
  dsimp only [MempoolSystem.step] at steps
  split at steps
  · split at steps
    · rename_i peer
      obtain ⟨link, answers, rfl⟩ := Option.map_eq_some_iff.mp steps
      exact .answer name peer link answers
    · rename_i peer index
      rw [Option.ite_none_right_eq_some] at steps
      obtain ⟨link, reads, rfl⟩ := Option.map_eq_some_iff.mp steps.2
      exact .read name peer index link reads
    · rename_i peer index
      rw [Option.ite_none_right_eq_some] at steps
      obtain ⟨⟨_, distinct⟩, steps⟩ := steps
      obtain ⟨⟨serialized, link⟩, releases, steps⟩ := Option.bind_eq_some_iff.mp steps
      obtain ⟨mempool, dispatches, rfl⟩ := Option.map_eq_some_iff.mp steps
      exact .forward name peer index serialized link mempool distinct releases dispatches
    · obtain ⟨mempool, taken, rfl⟩ := Option.map_eq_some_iff.mp steps
      exact .own name _ mempool taken
  · cases steps

/-- A runner of the peer has the batch in hand, or the processor of the peer has it. -/
def Holds (nodes : PublicKey → Mempool) (name peer : PublicKey) (serialized : List UInt8) : Prop :=
  serialized ∈ ((nodes name).links peer).hands ∨ (nodes peer).Has serialized

/-- An honest peer holds what it acknowledged. -/
structure Delivers (nodes : PublicKey → Mempool) (name peer : PublicKey) : Prop where
  tied : ((nodes name).links peer).Tied
  acked : ∀ frame ∈ ((nodes name).links peer).acks, Holds nodes name peer frame.data
  answered : ∀ answer ∈ ((nodes name).links peer).connection.answers,
    Holds nodes name peer answer.frame.data

/-- What a turn does to the link of an honest peer. -/
structure Passes (system : MempoolSystem) (nodes after : PublicKey → Mempool)
    (name peer : PublicKey) : Prop where
  tied : ((after name).links peer).Tied
  hands : ∀ serialized ∈ ((nodes name).links peer).hands,
    (∃ read, system.formats.decodeMessage serialized = some (.batch read)) →
      Holds after name peer serialized
  acks : ∀ frame ∈ ((after name).links peer).acks,
    frame ∈ ((nodes name).links peer).acks ∨ Holds after name peer frame.data
  answers : ∀ answer ∈ ((after name).links peer).connection.answers,
    answer ∈ ((nodes name).links peer).connection.answers ∨
      answer.frame ∈ ((nodes name).links peer).acks
  has : ∀ serialized, (nodes peer).Has serialized → (after peer).Has serialized

variable {name peer : PublicKey}

/-- A link that advances passes its batches on. -/
theorem Passes.advance {link : Link} (advances : ((nodes name).links peer).Advances link)
    (links : (after name).links peer = link)
    (has : ∀ serialized, (nodes peer).Has serialized → (after peer).Has serialized) :
    Passes system nodes after name peer := by
  subst links
  exact ⟨advances.tied, fun serialized inHand _ => .inl (advances.hands inHand),
    fun frame acked => (advances.acks frame acked).imp_right .inl, advances.answers, has⟩

/-- The turns that change one link leave the processor's batches alone. -/
theorem relink_has {turning other : PublicKey} {link : Link} {serialized : List UInt8}
    (has : (nodes peer).Has serialized) :
    (Function.update nodes turning ((nodes turning).relink other link) peer).Has serialized := by
  by_cases isTurning : peer = turning
  · subst isTurning
    rwa [Function.update_self]
  · rwa [Function.update_of_ne isTurning]

/-- A turn that replaces one link passes the batches of all on. -/
theorem Passes.relink {turning other : PublicKey} {link : Link}
    (tied : ((nodes name).links peer).Tied)
    (advances : name = turning → peer = other → ((nodes name).links peer).Advances link) :
    Passes system nodes (Function.update nodes turning ((nodes turning).relink other link))
      name peer := by
  by_cases isSender : name = turning
  · subst isSender
    by_cases isPeer : peer = other
    · subst isPeer
      refine .advance (advances rfl rfl) ?_ fun serialized => relink_has
      rw [Function.update_self]
      exact Function.update_self ..
    · refine .advance (.refl tied) ?_ fun serialized => relink_has
      rw [Function.update_self]
      exact Function.update_of_ne isPeer ..
  · exact .advance (.refl tied) (by rw [Function.update_of_ne isSender]) fun serialized =>
      relink_has

/-- A turn of the sender or the peer keeps what the peer holds. -/
theorem Turned.passes (collisionFree : CollisionFree) (turned : Turned system nodes after)
    (honest : system.honest peer = true) (distinct : peer ≠ name)
    (tied : ((nodes name).links peer).Tied) : Passes system nodes after name peer := by
  cases turned with
  | own turning event mempool steps =>
      by_cases isSender : name = turning
      · subst isSender
        refine .advance ((Mempool.step_local steps peer).advances tied) ?_ fun serialized has => ?_
        · rw [Function.update_self]
        · rwa [Function.update_of_ne distinct]
      · refine .advance (.refl tied) (by rw [Function.update_of_ne isSender]) ?_
        intro serialized has
        by_cases isPeer : peer = turning
        · subst isPeer
          rw [Function.update_self]
          exact has.step collisionFree steps
        · rwa [Function.update_of_ne isPeer]
  | answer turning other link answers =>
      refine .relink tied ?_
      rintro rfl rfl
      rw [MempoolSystem.answer, if_pos honest] at answers
      obtain ⟨next, hands, acks, resolved⟩ := tied.answer answers
      exact ⟨next, hands ▸ List.Subset.refl _, fun _ acked => .inl (acks acked), resolved⟩
  | read turning other index link reads =>
      refine .relink tied ?_
      rintro rfl rfl
      obtain ⟨next, hands, connection, acks⟩ := tied.read reads
      exact ⟨next, hands, acks, fun _ answered => .inl (connection ▸ answered)⟩
  | forward turning other index dispatched link mempool different releases dispatches =>
      have has (serialized : List UInt8) (has : (nodes peer).Has serialized) :
          (Function.update (Function.update nodes other mempool) turning
            ((nodes turning).relink other link) peer).Has serialized := by
        by_cases isTurning : peer = turning
        · subst isTurning
          rwa [Function.update_self]
        · rw [Function.update_of_ne isTurning]
          by_cases isOther : peer = other
          · subst isOther
            rw [Function.update_self]
            exact has.dispatch dispatches
          · rwa [Function.update_of_ne isOther]
      by_cases isSender : name = turning
      · subst isSender
        by_cases isPeer : peer = other
        · subst isPeer
          obtain ⟨next, _, connection, acks, hands⟩ := tied.release releases
          have links : (Function.update (Function.update nodes peer mempool) name
              ((nodes name).relink peer link) name).links peer = link := by
            rw [Function.update_self]
            exact Function.update_self ..
          refine ⟨by rwa [links], fun serialized inHand isBatch => ?_, fun frame acked => .inl ?_,
            fun answer answered => .inl ?_, has⟩
          · rcases hands serialized inHand with rfl | still
            · right
              obtain ⟨read, isBatch⟩ := isBatch
              rw [Function.update_of_ne distinct, Function.update_self]
              exact Mempool.has_dispatched isBatch dispatches
            · left
              rwa [links]
          · rwa [links, acks] at acked
          · rwa [links, connection] at answered
        · refine .advance (.refl tied) ?_ has
          rw [Function.update_self]
          exact Function.update_of_ne isPeer ..
      · refine .advance (.refl tied) ?_ has
        rw [Function.update_of_ne isSender]
        by_cases isOther : name = other
        · subst isOther
          rw [Function.update_self, (Mempool.dispatch_same dispatches).1]
        · rw [Function.update_of_ne isOther]

/-- Every node accounts for its transactions, and the honest peers hold what they acknowledged. -/
structure Sound (system : MempoolSystem) (nodes : PublicKey → Mempool) : Prop where
  piped : ∀ name, (nodes name).Piped system name
  keeps : ∀ name peer, ((nodes name).links peer).connection.Keeps ∧
    ((nodes name).links peer).connection.Wired
  delivers : ∀ name peer, system.honest peer = true → peer ≠ name → Delivers nodes name peer

/-- Another honest member is among the peers. -/
theorem mem_others (honest : system.honest peer = true) (distinct : peer ≠ name) :
    peer ∈ QuorumWaiter.others system.committee name := by
  have listed : peer ∈ system.committee.keys := (of_decide_eq_true honest).1
  obtain ⟨entry, inside, rfl⟩ := List.mem_map.mp listed
  simp only [QuorumWaiter.others, MempoolCommittee.broadcastAddresses, List.map_map, List.mem_map,
    List.mem_filter]
  exact ⟨entry, ⟨inside, by simpa using distinct⟩, rfl⟩

/-- Every message of a connection is a batch. -/
theorem Sound.accepted_batch (sound : Sound system nodes) (isOther : peer ∈
    QuorumWaiter.others system.committee name) {message : InnerMessage}
    (accepted : message ∈ ((nodes name).links peer).connection.accepted) :
    ∃ read, system.formats.decodeMessage message.data = some (.batch read) := by
  have inside := List.mem_map_of_mem (f := InnerMessage.data) accepted
  rw [(sound.piped name).sent peer isOther] at inside
  obtain ⟨batch, _, same⟩ := List.mem_map.mp inside
  rw [← same]
  exact system.serialized batch

/-- What a connection delivers stays delivered. -/
theorem Delivers.step (delivers : Delivers nodes name peer)
    (passes : Passes system nodes after name peer)
    (batches : ∀ message ∈ ((nodes name).links peer).connection.accepted,
      ∃ read, system.formats.decodeMessage message.data = some (.batch read)) :
    Delivers after name peer := by
  have keeps {serialized : List UInt8} (holds : Holds nodes name peer serialized) :
      Holds after name peer serialized := by
    rcases holds with inHand | has
    · obtain ⟨message, accepted, rfl⟩ := delivers.tied.held serialized inHand
      exact passes.hands _ inHand (batches message accepted)
    · exact .inr (passes.has serialized has)
  refine ⟨passes.tied, fun frame acked => ?_, fun answer answered => ?_⟩
  · rcases passes.acks frame acked with old | holds
    · exact keeps (delivers.acked frame old)
    · exact holds
  · rcases passes.answers answer answered with old | acked
    · exact keeps (delivers.answered answer old)
    · exact keeps (delivers.acked answer.frame acked)

/-- An answer is a step of the connection, whether the peer is honest or not. -/
theorem answer_steps {link link' : Link} (answers : system.answer link peer = some link') :
    ∃ bytes, link.connection.step (.answer bytes) = some link'.connection := by
  unfold MempoolSystem.answer at answers
  split at answers
  · unfold Link.answer at answers
    split at answers
    · cases answers
    · obtain ⟨connection, steps, rfl⟩ := Option.map_eq_some_iff.mp answers
      exact ⟨_, steps⟩
  · obtain ⟨connection, steps, rfl⟩ := Option.map_eq_some_iff.mp answers
    exact ⟨_, steps⟩

/-- Each node of a turn is as before, took a turn of its own, took in a batch or changed one link
on the side of the network. -/
theorem Turned.node (turned : Turned system nodes after) (name : PublicKey) :
    after name = nodes name ∨
      (∃ event, (nodes name).step system name event = some (after name)) ∨
      (∃ serialized, (nodes name).dispatch system serialized = some (after name)) ∨
      ∃ peer link, after name = (nodes name).relink peer link ∧
        (link.connection = ((nodes name).links peer).connection ∨
          ∃ bytes, ((nodes name).links peer).connection.step (.answer bytes) =
            some link.connection) := by
  cases turned with
  | own turning event mempool steps =>
      by_cases same : name = turning
      · subst same
        rw [Function.update_self]
        exact .inr (.inl ⟨event, steps⟩)
      · exact .inl (Function.update_of_ne same ..)
  | answer turning peer link answers =>
      by_cases same : name = turning
      · subst same
        rw [Function.update_self]
        exact .inr (.inr (.inr ⟨peer, link, rfl, .inr (answer_steps answers)⟩))
      · exact .inl (Function.update_of_ne same ..)
  | read turning peer index link reads =>
      by_cases same : name = turning
      · subst same
        rw [Function.update_self]
        exact .inr (.inr (.inr ⟨peer, link, rfl, .inl (Link.read_connection reads)⟩))
      · exact .inl (Function.update_of_ne same ..)
  | forward turning peer index serialized link mempool distinct releases dispatches =>
      by_cases same : name = turning
      · subst same
        rw [Function.update_self]
        exact .inr (.inr (.inr ⟨peer, link, rfl, .inl (Link.release_connection releases)⟩))
      · rw [Function.update_of_ne same]
        by_cases isPeer : name = peer
        · subst isPeer
          rw [Function.update_self]
          exact .inr (.inr (.inl ⟨serialized, dispatches⟩))
        · exact .inl (Function.update_of_ne isPeer ..)

/-- A turn keeps the state sound. -/
theorem Sound.step (sound : Sound system nodes) (collisionFree : CollisionFree)
    (turned : Turned system nodes after) : Sound system after := by
  constructor
  · intro name
    have piped := sound.piped name
    rcases turned.node name with same | ⟨event, steps⟩ | ⟨serialized, dispatches⟩ |
      ⟨peer, link, same, connection⟩
    · rwa [same]
    · exact piped.step collisionFree (fun peer => (sound.keeps name peer).2) steps
    · exact piped.dispatch dispatches
    · rw [same]
      apply piped.relink
      rcases connection with same | ⟨bytes, steps⟩
      · exact ⟨by rw [same], by rw [same], by rw [same]; exact List.Subset.refl _⟩
      · obtain ⟨accepted, closed, answers⟩ :=
          Connection.step_quiet (sound.keeps name peer).2 steps nofun nofun
        exact ⟨accepted, closed, answers⟩
  · intro name peer
    have keeps := sound.keeps name peer
    rcases turned.node name with same | ⟨event, steps⟩ | ⟨serialized, dispatches⟩ |
      ⟨other, link, same, connection⟩
    · rwa [same]
    · exact (Mempool.step_local steps peer).keeps keeps
    · rw [(Mempool.dispatch_same dispatches).1]
      exact keeps
    · rw [same]
      change (Function.update (nodes name).links other link peer).connection.Keeps ∧
        (Function.update (nodes name).links other link peer).connection.Wired
      by_cases isPeer : peer = other
      · subst isPeer
        rw [Function.update_self]
        rcases connection with same | ⟨bytes, steps⟩
        · rwa [same]
        · obtain ⟨change, wired⟩ := Connection.step_change keeps.2 steps
          exact ⟨keeps.1.step change, wired⟩
      · rwa [Function.update_of_ne isPeer]
  · intro name peer honest distinct
    have delivers := sound.delivers name peer honest distinct
    exact delivers.step (turned.passes collisionFree honest distinct delivers.tied)
      fun message => sound.accepted_batch (mem_others honest distinct)

/-- At boot nothing is on its way. -/
theorem boot_sound : Sound system fun _ => .boot where
  piped _ := Mempool.boot_piped
  keeps _ _ := Connection.reachable_keeps .start
  delivers _ _ _ _ := ⟨Link.new_tied, nofun, nofun⟩

/-- In every reachable state the handlers and the links agree. -/
theorem reachable_sound (collisionFree : CollisionFree)
    (reachable : system.machine.Reachable nodes) : Sound system nodes :=
  reachable.invariant (Sound system) boot_sound fun _ _ _ _ sound steps =>
    sound.step collisionFree (step_turned steps)

/-- The handler of a number belongs to the batch of that number. -/
theorem Sound.numbered (sound : Sound system nodes)
    (isOther : peer ∈ QuorumWaiter.others system.committee name) {index : Nat} {batch : Batch}
    (handed : ((nodes name).handed peer)[index]? = some batch) {message : InnerMessage} :
    message ∈ ((nodes name).links peer).connection.accepted ∧ message.cancelHandler = index ↔
      message = ⟨system.serialize batch, index⟩ := by
  have keeps := (sound.keeps name peer).1
  have sent := (sound.piped name).sent peer isOther
  generalize ((nodes name).links peer).connection = connection at *
  have placed : (connection.accepted.map InnerMessage.data)[index]? =
      some (system.serialize batch) := by
    rw [sent, List.getElem?_map, handed]
    rfl
  rw [List.getElem?_map] at placed
  obtain ⟨found, isFound, isData⟩ := Option.map_eq_some_iff.mp placed
  obtain ⟨within, atIndex⟩ := List.getElem?_eq_some_iff.mp isFound
  have handler {place : Nat} (inside : place < connection.accepted.length) :
      connection.accepted[place].cancelHandler = place := by
    have listed : (connection.accepted.map InnerMessage.cancelHandler)[place]? = some place := by
      rw [keeps.numbered]
      simp [inside]
    simpa [inside] using listed
  have isMessage : found = ⟨system.serialize batch, index⟩ := by
    have isIndex := handler within
    rw [atIndex] at isIndex
    cases found
    cases isData
    cases isIndex
    rfl
  constructor
  · rintro ⟨accepted, isIndex⟩
    obtain ⟨place, inside, rfl⟩ := List.mem_iff_getElem.mp accepted
    rw [handler inside] at isIndex
    subst isIndex
    rw [atIndex, isMessage]
  · rintro rfl
    rw [← isMessage, ← atIndex]
    exact ⟨List.getElem_mem _, handler within⟩

/-- An honest peer holds a batch whose handler is resolved. -/
theorem Sound.resolved_holds (sound : Sound system nodes) (honest : system.honest peer = true)
    (distinct : peer ≠ name) {index : Nat} {batch : Batch}
    (handed : ((nodes name).handed peer)[index]? = some batch)
    (resolved : index ∈ ((nodes name).links peer).connection.resolved) :
    Holds nodes name peer (system.serialize batch) := by
  obtain ⟨answer, answered, isIndex⟩ := List.mem_map.mp resolved
  obtain ⟨accepted, handler⟩ := (sound.keeps name peer).1.proper answer answered
  have isFrame := (sound.numbered (mem_others honest distinct) handed).mp
    ⟨accepted, handler.trans isIndex⟩
  have holds := (sound.delivers name peer honest distinct).answered answer answered
  rwa [isFrame] at holds

/-- Until the waiter is done with a batch, the connection to each peer that it was handed to has it in
a queue or writes it, unless an honest peer holds it. -/
theorem unfinished_kept (collisionFree : CollisionFree) (system : MempoolSystem)
    (nodes : PublicKey → Mempool) (reachable : system.machine.Reachable nodes)
    (name peer : PublicKey) (honest : system.honest peer = true) (distinct : peer ≠ name)
    (index : Nat) (batch : Batch) (unfinished : (nodes name).waiter.finished.length ≤ index)
    (handed : ((nodes name).handed peer)[index]? = some batch) :
    Holds nodes name peer (system.serialize batch) ∨
      ⟨system.serialize batch, index⟩ ∈ ((nodes name).links peer).connection.queued := by
  have sound := reachable_sound collisionFree reachable
  obtain ⟨accepted, _⟩ := (sound.numbered (mem_others honest distinct) handed).mpr rfl
  have unclosed : index ∉ ((nodes name).links peer).connection.closed := by
    intro isClosed
    have below := (sound.piped name).closed peer index isClosed
    omega
  rcases (sound.keeps name peer).1.kept _ accepted unclosed with resolved | queued
  · exact .inl (sound.resolved_holds honest distinct handed resolved)
  · exact .inr queued

/-- A finished batch was the batch of its number for every connection. -/
theorem handed_finished {mempool : Mempool} {index : Nat} {finished : FinishedBatch}
    (isFinished : mempool.waiter.finished[index]? = some finished) (peer : PublicKey) :
    (mempool.handed peer)[index]? = some finished.batch := by
  have within := (List.getElem?_eq_some_iff.mp isFinished).1
  unfold Mempool.handed QuorumWaiter.batches
  simp only [List.append_assoc]
  rw [List.getElem?_append_left (by simpa using within), List.getElem?_map, isFinished]
  rfl

/-- Once the waiter forwards a batch, honest members with more than a third of the stake hold it:
the node itself, and peers whose processor has it in its channel or in its store or is about to
receive it from a runner. -/
theorem forwarded_available (collisionFree : CollisionFree) (system : MempoolSystem)
    (few : 3 * system.faultyStake < system.committee.totalVotes)
    (small : 2 * system.committee.totalVotes < 2 ^ 32) (nodes : PublicKey → Mempool)
    (reachable : system.machine.Reachable nodes) (name : PublicKey)
    (honest : system.honest name = true) (batch : Batch)
    (forwarded : batch ∈ (nodes name).waiter.txBatch) :
    ∃ holders : Finset PublicKey, system.committee.totalVotes <
        3 * ∑ holder ∈ holders, system.committee.stake holder ∧
      ∀ holder ∈ holders, system.honest holder = true ∧
        (holder = name ∨ Holds nodes name holder (system.serialize batch)) := by
  have sound := reachable_sound collisionFree reachable
  have piped := sound.piped name
  rw [piped.counts.delivered] at forwarded
  obtain ⟨finished, kept, rfl⟩ := List.mem_map.mp forwarded
  obtain ⟨inside, isForwarded⟩ := List.mem_filter.mp kept
  obtain ⟨index, within, isFinished⟩ := List.mem_iff_getElem.mp inside
  have atIndex : (nodes name).waiter.finished[index]? = some finished :=
    List.getElem?_eq_some_iff.mpr ⟨within, isFinished⟩
  obtain ⟨acked, reached⟩ := piped.finished index finished atIndex
  have listed : name ∈ system.committee.keys := (of_decide_eq_true honest).1
  have others := acked.others
  rw [Mempool.others_eq] at others
  let group := (name :: finished.acknowledged).toFinset
  have members : group ⊆ system.committee.keys.toFinset := by
    intro member isMember
    rw [List.mem_toFinset] at isMember ⊢
    rcases List.mem_cons.mp isMember with rfl | isPeer
    · exact listed
    · exact List.mem_of_mem_erase (others isPeer)
  have total : ∑ member ∈ system.committee.keys.toFinset, system.committee.stake member =
      system.committee.totalVotes :=
    sum_lookup MempoolAuthority.stake system.committee.authorities system.committee.distinct
  have distinct : (name :: finished.acknowledged).Nodup := by
    refine List.nodup_cons.mpr ⟨fun isPeer => ?_, acked.distinct⟩
    exact absurd (others isPeer) (List.Nodup.not_mem_erase system.committee.distinct)
  have stake : ∑ member ∈ group, system.committee.stake member =
      QuorumWaiter.backing system.committee name finished.acknowledged := by
    rw [List.sum_toFinset _ distinct]
    simp [QuorumWaiter.backing]
  have isQuorum := reached isForwarded
  have unwrapped : system.committee.totalVotes % 2 ^ 32 = system.committee.totalVotes :=
    Nat.mod_eq_of_lt (by omega)
  rw [MempoolCommittee.quorumThreshold, unwrapped, Nat.mod_eq_of_lt small, ← stake, ← total]
    at isQuorum
  rw [faultyStake, ← total] at few
  refine ⟨{member ∈ group | ¬ system.faulty member = true}, ?_, fun holder holds => ?_⟩
  · rw [← total]
    exact correct_third system.committee.stake members few isQuorum
  · obtain ⟨isMember, correct⟩ := Finset.mem_filter.mp holds
    have isHonest : system.honest holder = true := decide_eq_true
      ⟨List.mem_toFinset.mp (members isMember), Bool.eq_false_of_not_eq_true correct⟩
    refine ⟨isHonest, ?_⟩
    rcases List.mem_cons.mp (List.mem_toFinset.mp isMember) with isSelf | isPeer
    · exact .inl isSelf
    · have isOther : holder ≠ name := by
        rintro rfl
        exact (List.nodup_cons.mp distinct).1 isPeer
      exact .inr (sound.resolved_holds isHonest isOther (handed_finished atIndex holder)
        (acked.resolved holder isPeer))

/-- In a committee of several members, the transactions that a node acknowledged to its clients
are, in order, those of the batches that went to its processor, of the ones on the way there and
of the batch in the making. The processor stored the first batches and announced them in order. -/
theorem accepted_conserved (collisionFree : CollisionFree) (system : MempoolSystem)
    (positive : 1 ≤ system.committee.totalVotes)
    (small : system.committee.totalVotes < 2 ^ 32) (nodes : PublicKey → Mempool)
    (reachable : system.machine.Reachable nodes) (name : PublicKey)
    (listed : name ∈ system.committee.keys)
    (peers : QuorumWaiter.others system.committee name ≠ []) :
    (nodes name).accepted = ((nodes name).waiter.txBatch ++ (nodes name).pending).flatten ++
        (nodes name).maker.currentBatch ++ (nodes name).rxTransaction ∧
      (∀ batch ∈ (nodes name).waiter.txBatch.take (nodes name).processed,
        (nodes name).store.read (sha512 (.batch (system.serialize batch))) =
          some (.batch (system.serialize batch))) ∧
      (((nodes name).waiter.txBatch.take (nodes name).processed).map fun batch =>
        sha512 (.batch (system.serialize batch))).Sublist (nodes name).txConsensus := by
  have piped := (reachable_sound collisionFree reachable).piped name
  obtain ⟨arrivals, conserves, whole⟩ := piped.conserves
  have all : (nodes name).waiter.txBatch =
      (nodes name).waiter.finished.map FinishedBatch.batch := by
    rw [piped.counts.delivered, List.filter_eq_self.mpr (piped.forwards listed peers positive small)]
  refine ⟨?_, piped.stored, piped.announced⟩
  rw [whole, ← conserves.transactions, piped.sealed, all]
  simp [QuorumWaiter.batches, Mempool.pending]

end MempoolSystem

end

namespace Plain

/-- The little-endian number of eight bytes that `bincode` puts before a sequence. -/
def fixedInt (number : Nat) : List UInt8 :=
  (List.range 8).map fun place => UInt8.ofNat (number / 256 ^ place)

def serializeBatch (batch : Batch) : List UInt8 :=
  [0, 0, 0, 0] ++ fixedInt batch.length ++
    batch.flatMap fun transaction => fixedInt transaction.length ++ transaction

/-- The formats read as a batch what begins like one. -/
def batchFormats : Formats :=
  { formats with
    decodeMessage := fun bytes =>
      if bytes = emptyRequest then some (.batch [[]])
      else if bytes.take 4 = [0, 0, 0, 0] then some (.batch [])
      else none }

/-- A serialized batch decodes as a batch. -/
theorem serializeBatch_decodes (batch : Batch) :
    ∃ read, batchFormats.decodeMessage (serializeBatch batch) = some (.batch read) := by
  by_cases isEmpty : serializeBatch batch = emptyRequest
  · exact ⟨[[]], if_pos isEmpty⟩
  · exact ⟨[], (if_neg isEmpty).trans rfl⟩

/-- Four equal members at addresses of their own, the last of which need not follow the code. -/
def mempools : MempoolSystem where
  committee :=
    { authorities := (List.range 4).map fun key => (key, ⟨1, ⟨"", 0⟩, ⟨"", key.toUInt16⟩⟩)
      distinct := by decide
      bounded := by decide }
  faulty key := decide (key = (3 : Nat))
  formats := batchFormats
  serialize := serializeBatch
  batchSize := 1
  addresses := by decide
  serialized := serializeBatch_decodes

/-- The timer seals a batch of one transaction, which goes to the connections of all peers. -/
def sealingRun : List (Nat × MempoolEvent) := [
  (0, .client []), (0, .transaction), (0, .timer), (0, .broadcast), (0, .broadcast),
  (0, .broadcast), (0, .broadcast), (0, .receive)]

/-- The connection to a peer opens, and the peer acknowledges the batch. -/
def acknowledges (peer : Nat) : List (Nat × MempoolEvent) := [
  (0, .connection peer (.connect true)), (0, .connection peer .receive),
  (0, .connection peer .transmit), (0, .connection peer (.written true)), (0, .read peer 0),
  (0, .answer peer)]

/-- Two peers acknowledge the batch, one of which stores it. -/
def quorumRun : List (Nat × MempoolEvent) :=
  sealingRun ++ acknowledges 1 ++ acknowledges 2 ++ [
    (0, .forward (1 : Nat) 0), (0, .complete (1 : Nat)), (0, .complete (2 : Nat)), (0, .process),
    (1, .processPeer)]

/-- The run hands a batch to the connection and does not finish it. -/
theorem sealingRun_seals : (mempools.machine.execute mempools.machine.initial sealingRun).map
    (fun nodes => ((nodes (0 : Nat)).waiter.finished.length,
      ((nodes (0 : Nat)).handed (1 : Nat))[0]?)) = some (0, some [[]]) := by
  decide +kernel

/-- The run forwards the batch and stores it. -/
theorem quorumRun_forwards : (mempools.machine.execute mempools.machine.initial quorumRun).map
    (fun nodes => ((nodes (0 : Nat)).accepted, (nodes (0 : Nat)).waiter.txBatch,
      (nodes (0 : Nat)).processed)) = some ([[]], [[[]]], 1) := by
  decide +kernel

/-- The batch of the run is with the peer or in the connection. -/
theorem unfinished_kept_sealingRun : ∃ nodes : Nat → Mempool,
    mempools.machine.execute mempools.machine.initial sealingRun = some nodes ∧
    ((nodes (0 : Nat)).handed (1 : Nat))[0]? = some [[]] ∧
    (MempoolSystem.Holds nodes (0 : Nat) (1 : Nat) (serializeBatch [[]]) ∨
      ⟨serializeBatch [[]], 0⟩ ∈ ((nodes 0).links (1 : Nat)).connection.queued) := by
  obtain ⟨nodes, executed, observed⟩ := Option.map_eq_some_iff.mp sealingRun_seals
  obtain ⟨unfinished, handed⟩ := Prod.mk.inj observed
  exact ⟨nodes, executed, handed, MempoolSystem.unfinished_kept collisionFree mempools nodes
    (.execute executed) (0 : Nat) (1 : Nat) (by decide) (by decide) 0 [[]] unfinished.le handed⟩

/-- Members with more than a third of the stake hold the forwarded batch. -/
theorem forwarded_available_quorumRun : ∃ (nodes : Nat → Mempool) (holders : Finset Nat),
    mempools.machine.execute mempools.machine.initial quorumRun = some nodes ∧
    (nodes (0 : Nat)).waiter.txBatch = [[[]]] ∧
    mempools.committee.totalVotes < 3 * ∑ holder ∈ holders, mempools.committee.stake holder ∧
      ∀ holder ∈ holders, mempools.honest holder = true ∧ (holder = (0 : Nat) ∨
        MempoolSystem.Holds nodes (0 : Nat) holder (serializeBatch [[]])) := by
  obtain ⟨nodes, executed, observed⟩ := Option.map_eq_some_iff.mp quorumRun_forwards
  have forwarded : (nodes (0 : Nat)).waiter.txBatch = [[[]]] :=
    (Prod.mk.inj (Prod.mk.inj observed).2).1
  obtain ⟨holders, held⟩ := MempoolSystem.forwarded_available collisionFree mempools (by decide)
    (by decide) nodes (.execute executed) (0 : Nat) (by decide) [[]]
    (by rw [forwarded]; exact List.mem_cons_self)
  exact ⟨nodes, holders, executed, forwarded, held⟩

/-- The acknowledged transaction is accounted for. -/
theorem accepted_conserved_quorumRun : ∃ nodes : Nat → Mempool,
    mempools.machine.execute mempools.machine.initial quorumRun = some nodes ∧
    (nodes (0 : Nat)).accepted = [[]] ∧ (nodes (0 : Nat)).accepted =
      ((nodes (0 : Nat)).waiter.txBatch ++ (nodes (0 : Nat)).pending).flatten ++
        (nodes (0 : Nat)).maker.currentBatch ++ (nodes (0 : Nat)).rxTransaction := by
  obtain ⟨nodes, executed, observed⟩ := Option.map_eq_some_iff.mp quorumRun_forwards
  have conserved := MempoolSystem.accepted_conserved collisionFree mempools (by decide) (by decide)
    nodes (.execute executed) (0 : Nat) (by decide) (by decide)
  exact ⟨nodes, executed, (Prod.mk.inj observed).1, conserved.1⟩

end Plain

end DeflHotstuff
