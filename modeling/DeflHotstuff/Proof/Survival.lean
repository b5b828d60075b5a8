import DeflHotstuff.Construction.Plain
import DeflHotstuff.Proof.Analysis

namespace DeflHotstuff

open Verification

section

variable [Crypto]

/-- A loop that is polled again and again serves all requests of a committed block exactly when
each job that it turns to is possible then and does not wait for ever. -/
theorem Analysis.application_survives (formats : Formats) (store : Store) (payload : List Digest)
    (stored : ∀ digest ∈ payload, ∃ serialized,
      store.read digest = some (.batch serialized) ∧ Passed formats serialized)
    (application : Application) (sender : SimpleSender) (events : Nat → AnalysisEvent)
    (polled : Polled events) :
    (∃ last, ((schedule formats store payload application sender events).state last).Completed ∧
      ((schedule formats store payload application sender events).state
        last).application.databanks = application.databanks.served
          (formats.requests (formats.transactions store payload))) ↔
      Unhindered formats (schedule formats store payload application sender events) := by
  have found : ∀ job ∈ (schedule formats store payload application sender events).initial.jobs,
      job.Stored store := by
    intro job inside
    obtain ⟨digest, listed, rfl⟩ := List.mem_map.mp inside
    obtain ⟨serialized, isStored, _⟩ := stored digest listed
    exact Option.isSome_of_mem isStored
  constructor
  · rintro ⟨last, completed, _⟩
    exact unhindered_of_completed rfl found completed
  · exact fun unhindered => Proceeds.completes ⟨rfl, found, polled, unhindered⟩

end

namespace Plain

open Analysis

/-- A batch of one transaction of one byte, and a batch of one empty transaction. -/
def undecodable : List UInt8 := [0, 0, 0, 0, 1, 0, 0, 0, 0, 0, 0, 0, 1, 0, 0, 0, 0, 0, 0, 0, 255]

def emptyRequest : List UInt8 := [0, 0, 0, 0, 1, 0, 0, 0, 0, 0, 0, 0, 0, 0, 0, 0, 0, 0, 0, 0]

/-- The formats on the inputs of the runs below. -/
def formats : Formats where
  decodeRequest bytes := if bytes = [] then some ⟨0, "", "", 0, none⟩ else none
  decodeMessage bytes :=
    if bytes = undecodable then some (.batch [[255]])
    else if bytes = emptyRequest then some (.batch [[]])
    else none
  serializeBlock _ := []
  parseIp host := if host = "127.0.0.1" then some ⟨[127, 0, 0, 1]⟩ else none
  newV4 _ := ""

def storing (serialized : List UInt8) : Store :=
  Store.new.write (hash (.batch serialized)) (.batch serialized)

/-- An application with one client of the given host. -/
def serving (host : String) : Application :=
  ⟨.new 1, Contacts.new.clientRegister "" ⟨host, 9000, host, 9001⟩, [], 0⟩

/-- The loop is polled all the time, and nothing else happens. -/
def onlyTurns : Nat → AnalysisEvent := fun _ => .turn false

/-- A schedule of turns alone polls the loop at all times. -/
theorem onlyTurns_polled : Polled onlyTurns := fun first => ⟨first, le_rfl, false, rfl⟩

/-- The store gives back the batch. -/
theorem read_storing (serialized : List UInt8) :
    (storing serialized).read (hash (.batch serialized)) = some (.batch serialized) := by
  rw [storing, Store.read_write, if_pos rfl]

/-- The batch in the store passes when its bytes do. -/
theorem storing_passed {formats : Formats} {serialized : List UInt8}
    (passed : Passed formats serialized) :
    ∀ digest ∈ [hash (.batch serialized)], ∃ stored,
      (storing serialized).read digest = some (.batch stored) ∧ Passed formats stored := by
  intro digest inside
  cases List.mem_singleton.mp inside
  exact ⟨serialized, read_storing serialized, passed⟩

/-- The request without a method panics nowhere. -/
theorem emptyRequest_passed : Passed formats emptyRequest := by
  refine .own emptyRequest [[]] rfl fun transaction inside => ?_
  cases List.mem_singleton.mp inside
  rfl

/-- The client with a good host gets its answer in four turns. -/
theorem application_survives_good :
    ((schedule formats (storing emptyRequest) [hash (.batch emptyRequest)] (serving "127.0.0.1")
      .new onlyTurns).state 4).Completed ∧
    Unhindered formats (schedule formats (storing emptyRequest) [hash (.batch emptyRequest)]
      (serving "127.0.0.1") .new onlyTurns) :=
  ⟨⟨rfl, rfl⟩, (application_survives formats (storing emptyRequest)
    [hash (.batch emptyRequest)] (storing_passed emptyRequest_passed) (serving "127.0.0.1") .new
    onlyTurns onlyTurns_polled).mp ⟨4, ⟨rfl, rfl⟩, rfl⟩⟩

/-- A request whose identifier is 64 MiB long. -/
def loud : List UInt8 := [18, 128, 128, 128, 32] ++ List.replicate 67108864 97

/-- A batch of this request and 1001 empty ones. -/
def flood : List UInt8 := [0, 0, 0, 0, 234, 3, 0, 0, 0, 0, 0, 0] ++
  ([5, 0, 0, 4, 0, 0, 0, 0] ++ loud) ++ List.replicate 8008 0

def floodFormats : Formats := { formats with
  decodeRequest := fun bytes =>
    if bytes = loud then some ⟨0, String.ofList (List.replicate 67108864 'a'), "", 0, none⟩
    else formats.decodeRequest bytes
  decodeMessage := fun bytes =>
    if bytes = flood then some (.batch (loud :: List.replicate 1001 [])) else none }

def floodAddress : ClientAddr := ⟨⟨[127, 0, 0, 1]⟩, 9000⟩

/-- The client accepts the connection and reads nothing, so that the first write never ends. -/
def floodEvents : Nat → AnalysisEvent
  | 4 => .connection floodAddress (.connect true)
  | 5 => .connection floodAddress .receive
  | _ => .turn false

/-- The flood polls the loop at all times. -/
theorem floodEvents_polled : Polled floodEvents :=
  fun first => ⟨first + 6, Nat.le_add_right first 6, false, rfl⟩

/-- The flood is a batch of one request and many empty transactions. -/
theorem decodeMessage_flood :
    floodFormats.decodeMessage flood = some (.batch (loud :: List.replicate 1001 [])) := by
  have reads (bytes : List UInt8) : floodFormats.decodeMessage bytes =
      if bytes = flood then some (.batch (loud :: List.replicate 1001 [])) else none := rfl
  rw [reads, if_pos rfl]

/-- Each transaction of the flood is a request for the last weights. -/
theorem decodeRequest_flood {clientTx : List UInt8}
    (inside : clientTx ∈ loud :: List.replicate 1001 []) :
    ∃ requestUuid, floodFormats.decodeRequest clientTx = some ⟨0, requestUuid, "", 0, none⟩ := by
  have reads (bytes : List UInt8) : floodFormats.decodeRequest bytes =
      if bytes = loud then some ⟨0, String.ofList (List.replicate 67108864 'a'), "", 0, none⟩
      else formats.decodeRequest bytes := rfl
  obtain rfl | empty := List.mem_cons.mp inside
  · exact ⟨_, by rw [reads, if_pos rfl]⟩
  · cases List.eq_of_mem_replicate empty
    have short : [] ≠ loud := (List.cons_ne_nil _ _).symm
    exact ⟨"", by rw [reads, if_neg short]; rfl⟩

/-- The flood panics nowhere. -/
theorem flood_passed : Passed floodFormats flood := by
  refine .own flood _ decodeMessage_flood fun transaction inside => ?_
  obtain ⟨requestUuid, decoded⟩ := decodeRequest_flood inside
  rw [TxReceiverHandler.dispatch, decoded]

/-- The responses that a job of the run below still leads to. -/
def owed : Job → Nat
  | .read _ => 1002
  | .transaction _ => 1
  | .respondToClient _ _ => 1
  | .send _ _ => 1
  | _ => 0

/-- The messages that the connection of the client has in hand. -/
def load (sender : SimpleSender) : Nat :=
  match sender.connections floodAddress with
  | none => 0
  | some connection => connection.channel.length +
      match connection.stage with
      | .writing _ => 1
      | _ => 0

/-- The jobs of the run below. -/
inductive FloodJob : Job → Prop
  | read : FloodJob (.read (hash (.batch flood)))
  | transaction (clientTx : List UInt8) (inside : clientTx ∈ loud :: List.replicate 1001 []) :
      FloodJob (.transaction clientTx)
  | respond (response : Response) : FloodJob (.respondToClient "" response)
  | send (data : ClientMessage) : FloodJob (.send floodAddress data)

/-- All responses are still owed or in the hands of the connection, which stays open. -/
structure Flooded (analysis : Analysis) : Prop where
  contacts : analysis.application.contacts = (serving "127.0.0.1").contacts
  jobs : ∀ job ∈ analysis.jobs, FloodJob job
  owes : (analysis.jobs.map owed).sum + load analysis.sender = 1002
  stays : ∀ connection, analysis.sender.connections floodAddress = some connection →
    connection.closed = false ∧ connection.channel.length ≤ 1000

/-- A flooded analysis has not completed. -/
theorem Flooded.incomplete {analysis : Analysis} (flooded : Flooded analysis) :
    ¬ analysis.Completed := by
  rintro ⟨done, -⟩
  have owes := flooded.owes
  rw [done] at owes
  unfold load at owes
  cases found : analysis.sender.connections floodAddress with
  | none => simp [found] at owes
  | some connection =>
      have room := (flooded.stays connection found).2
      rw [found] at owes
      dsimp only at owes
      split at owes <;> simp at owes <;> omega

/-- A job of the run leads to as many responses as it owes. -/
theorem FloodJob.performs {job : Job} (isJob : FloodJob job) {application after : Application}
    {work : List Job} (contacts : application.contacts = (serving "127.0.0.1").contacts)
    (performed : job.perform floodFormats (storing flood) application = some (after, work)) :
    after.contacts = application.contacts ∧ (∀ other ∈ work, FloodJob other) ∧
      ((∃ data, job = .send floodAddress data) ∧ work = [] ∨
        (∀ sender, job.sending sender false = some sender) ∧
          owed job = (work.map owed).sum) := by
  cases isJob with
  | read =>
      rw [Job.perform, read_storing, Option.map_some, Formats.bytes, decodeMessage_flood]
        at performed
      cases performed
      refine ⟨rfl, fun other inside => ?_, .inr ⟨fun _ => rfl, ?_⟩⟩
      · obtain ⟨clientTx, listed, rfl⟩ := List.mem_map.mp inside
        exact .transaction clientTx listed
      · rw [List.map_cons, List.map_cons, List.sum_cons, List.map_replicate, List.map_replicate,
          List.sum_replicate_nat]
        rfl
  | transaction clientTx inside =>
      obtain ⟨requestUuid, decoded⟩ := decodeRequest_flood inside
      have silent : (application.databanks.serve ⟨0, requestUuid, "", 0, none⟩
          (floodFormats.newV4 application.drawn)).2.1 = none := by
        simp only [Databanks.serve, Method.fromI32]
        split <;> rfl
      rw [Job.perform, decoded, Option.map_some, Databanks.getResponses] at performed
      dsimp only at performed
      rw [silent] at performed
      cases performed
      refine ⟨rfl, fun other inside => ?_, .inr ⟨fun _ => rfl, rfl⟩⟩
      cases List.mem_singleton.mp inside
      exact .respond _
  | respond response =>
      simp only [Job.perform, contacts] at performed
      cases performed
      refine ⟨rfl, fun other inside => ?_, .inr ⟨fun _ => rfl, rfl⟩⟩
      cases List.mem_singleton.mp inside
      exact .send _
  | send data =>
      cases performed
      exact ⟨rfl, fun _ inside => absurd inside List.not_mem_nil, .inl ⟨⟨data, rfl⟩, rfl⟩⟩

/-- A response that the sender takes is one more for the open connection. -/
theorem load_send {sender after : SimpleSender} {data : ClientMessage}
    (stays : ∀ connection, sender.connections floodAddress = some connection →
      connection.closed = false ∧ connection.channel.length ≤ 1000)
    (sends : (Job.send floodAddress data).sending sender false = some after) :
    load after = load sender + 1 ∧
      ∀ connection, after.connections floodAddress = some connection →
        connection.closed = false ∧ connection.channel.length ≤ 1000 := by
  obtain ⟨sent, taken, rfl⟩ := Option.map_eq_some_iff.mp sends
  unfold SimpleSender.send at taken
  cases found : sender.connections floodAddress with
  | none =>
      rw [found] at taken
      cases taken
      simp [load, found, SimpleSender.spawnConnection, SimpleSender.insert_same,
        SimpleSender.Connection.closed]
  | some connection =>
      obtain ⟨isOpen, _⟩ := stays connection found
      rw [found] at taken
      simp only [isOpen, Bool.false_eq_true, if_false] at taken
      split at taken
      · rename_i room
        cases taken
        simp only [load, found, SimpleSender.insert_same, List.length_append, List.length_singleton,
          Option.some.injEq, forall_eq']
        exact ⟨by omega, isOpen, room⟩
      · cases taken

/-- A turn leaves the analysis flooded. -/
theorem Flooded.turn {analysis : Analysis} (flooded : Flooded analysis) :
    Flooded (analysis.turn floodFormats (storing flood) false) := by
  obtain ⟨same, _⟩ |
      ⟨job, rest, isNext, _, _, ⟨_, panics⟩ | ⟨_, work, _, sends, performed, goes⟩⟩ :=
    turn_cases floodFormats (storing flood) analysis false
  · rw [same]
    exact flooded
  · rw [panics]
    exact ⟨flooded.contacts, flooded.jobs, flooded.owes, flooded.stays⟩
  · have owes := flooded.owes
    rw [isNext, List.map_cons, List.sum_cons] at owes
    have isJob := flooded.jobs job (isNext ▸ List.mem_cons_self ..)
    obtain ⟨contacts, jobs, effect⟩ := isJob.performs flooded.contacts performed
    rw [goes]
    have all : ∀ other ∈ work ++ rest, FloodJob other := by
      intro other inside
      obtain new | old := List.mem_append.mp inside
      · exact jobs other new
      · exact flooded.jobs other (isNext ▸ List.mem_cons_of_mem _ old)
    obtain ⟨⟨data, rfl⟩, rfl⟩ | ⟨unsent, leads⟩ := effect
    · obtain ⟨more, stays⟩ := load_send flooded.stays sends
      refine ⟨contacts.trans flooded.contacts, all, ?_, stays⟩
      have one : owed (.send floodAddress data) = 1 := rfl
      dsimp only [List.nil_append]
      omega
    · cases (unsent analysis.sender).symm.trans sends
      refine ⟨contacts.trans flooded.contacts, all, ?_, flooded.stays⟩
      rw [List.map_append, List.sum_append, ← leads]
      exact owes

/-- The connection takes a message from its channel or is established. -/
theorem Flooded.connection {analysis : Analysis} (flooded : Flooded analysis)
    {event : SimpleSender.ConnectionEvent}
    (isEvent : event = .connect true ∨ event = .receive) :
    Flooded { analysis with sender := analysis.sender.run floodAddress event } := by
  unfold SimpleSender.run
  cases found : analysis.sender.connections floodAddress with
  | none => exact flooded
  | some connection =>
      obtain ⟨isOpen, room⟩ := flooded.stays connection found
      have owes := flooded.owes
      have kept : load (analysis.sender.insert floodAddress (connection.step event)) =
          load analysis.sender ∧ (connection.step event).closed = false ∧
            (connection.step event).channel.length ≤ 1000 := by
        unfold load
        rw [SimpleSender.insert_same, found]
        obtain ⟨channel, stage⟩ := connection
        obtain rfl | rfl := isEvent
        · cases stage <;> simp_all [SimpleSender.Connection.step, SimpleSender.Connection.closed]
        · cases stage <;> cases channel <;>
            simp_all [SimpleSender.Connection.step, SimpleSender.Connection.closed]
          omega
      refine ⟨flooded.contacts, flooded.jobs, kept.1.symm ▸ owes, fun other isOther => ?_⟩
      rw [SimpleSender.insert_same] at isOther
      cases isOther
      exact kept.2

/-- The analysis is flooded at all times. -/
theorem flooded (time : Nat) : Flooded ((schedule floodFormats (storing flood)
    [hash (.batch flood)] (serving "127.0.0.1") .new floodEvents).state time) := by
  refine Schedule.invariant Flooded ?_ (fun middle holds => ?_) time
  · refine ⟨rfl, fun job inside => ?_, rfl, fun _ => (nomatch ·)⟩
    cases List.mem_singleton.mp inside
    exact .read
  · rw [Schedule.state_succ]
    change Flooded (Analysis.step floodFormats (storing flood) _ (floodEvents middle))
    unfold floodEvents
    split
    · exact holds.connection (.inl rfl)
    · exact holds.connection (.inr rfl)
    · exact holds.turn

/-- A peer's transaction that does not decode stops the application, and so does a client that
registered a host name, or one that does not read its responses. -/
theorem application_survives_fails :
    (Passed formats undecodable ∧ ∃ events, Polled events ∧ ∀ last,
      ¬ ((schedule formats (storing undecodable) [hash (.batch undecodable)]
        (serving "127.0.0.1") .new events).state last).Completed) ∧
    (Passed formats emptyRequest ∧ ∃ events, Polled events ∧ ∀ last,
      ¬ ((schedule formats (storing emptyRequest) [hash (.batch emptyRequest)]
        (serving "localhost") .new events).state last).Completed) ∧
    Passed floodFormats flood ∧ ∃ events, Polled events ∧ ∀ last,
      ¬ ((schedule floodFormats (storing flood) [hash (.batch flood)]
        (serving "127.0.0.1") .new events).state last).Completed :=
  ⟨⟨.peer undecodable rfl, onlyTurns, onlyTurns_polled, incomplete_of_panicked rfl 2 rfl⟩,
    ⟨emptyRequest_passed, onlyTurns, onlyTurns_polled, incomplete_of_panicked rfl 3 rfl⟩,
    flood_passed, floodEvents, floodEvents_polled, fun last => (flooded last).incomplete⟩

end Plain

end DeflHotstuff
