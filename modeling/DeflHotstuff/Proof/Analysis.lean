import DeflHotstuff.Construction.Analysis

namespace DeflHotstuff

open Verification

/-- The databanks after the requests. -/
def Databanks.served : Databanks → List ClientRequest → Databanks
  | node, [] => node
  | node, request :: rest => (node.serve request "").2.2.served rest

/-- Requests are served one after the other. -/
theorem Databanks.served_append (node : Databanks) (first second : List ClientRequest) :
    node.served (first ++ second) = (node.served first).served second := by
  induction first generalizing node with
  | nil => rfl
  | cons request rest ih => exact ih _

/-- The identifier of a passive response decides nothing. -/
theorem Databanks.serve_uuid (node : Databanks) (request : ClientRequest) (uuid : String) :
    (node.serve request uuid).2.1.isSome = (node.serve request "").2.1.isSome ∧
      (node.serve request uuid).2.2 = (node.serve request "").2.2 := by
  unfold serve
  split
  · split <;> exact ⟨rfl, rfl⟩
  · split
    · split
      · dsimp only
        split <;> exact ⟨rfl, rfl⟩
      · exact ⟨rfl, rfl⟩
    · exact ⟨rfl, rfl⟩
  · exact ⟨rfl, rfl⟩

namespace SimpleSender

/-- The inserted connection is found under its address. -/
theorem insert_same (sender : SimpleSender) (address : ClientAddr) (connection : Connection) :
    (sender.insert address connection).connections address = some connection :=
  Function.update_self ..

/-- An insertion leaves the connections to other addresses alone. -/
theorem insert_other (sender : SimpleSender) {address other : ClientAddr} (connection : Connection)
    (distinct : other ≠ address) :
    (sender.insert address connection).connections other = sender.connections other :=
  Function.update_of_ne distinct ..

/-- A connection that goes on makes no channel full. -/
theorem Connection.step_room {connection : Connection} (event : ConnectionEvent)
    (room : connection.closed = true ∨ connection.channel.length < 1000) :
    (connection.step event).closed = true ∨ (connection.step event).channel.length < 1000 := by
  obtain ⟨channel, stage⟩ := connection
  cases stage <;> cases event <;> try exact room
  case connecting.connect succeeds => cases succeeds <;> simp_all [closed, step]
  case selecting.response isOk => cases isOk <;> simp_all [closed, step]
  case writing.written succeeds => cases succeeds <;> simp_all [closed, step]
  case selecting.receive =>
    cases channel with
    | nil => exact room
    | cons data rest =>
        simp only [closed, Bool.false_eq_true, List.length_cons, false_or] at room
        exact .inr (by simp only [step]; omega)

end SimpleSender

section

variable [Crypto] {formats : Formats}

/-- The transactions of a message that is a batch. -/
def MempoolMessage.transactions : Option MempoolMessage → List (List UInt8)
  | some (.batch clientTxs) => clientTxs
  | _ => []

/-- The transactions of the stored batches, in the order of the payload. -/
def Formats.transactions (formats : Formats) (store : Store) (payload : List Digest) :
    List (List UInt8) :=
  payload.flatMap fun digest => MempoolMessage.transactions
    ((store.read digest).bind fun value => formats.decodeMessage (formats.bytes value))

/-- The requests of the transactions that decode. -/
def Formats.requests (formats : Formats) (transactions : List (List UInt8)) :
    List ClientRequest := transactions.filterMap formats.decodeRequest

/-- The requests of a sequence of transactions are those of its parts. -/
theorem Formats.requests_append (first second : List (List UInt8)) :
    formats.requests (first ++ second) = formats.requests first ++ formats.requests second :=
  List.filterMap_append

/-- A transaction contributes its request if it decodes. -/
theorem Formats.requests_cons (clientTx : List UInt8) (rest : List (List UInt8)) :
    formats.requests (clientTx :: rest) =
      (formats.decodeRequest clientTx).toList ++ formats.requests rest := by
  unfold requests
  cases decoded : formats.decodeRequest clientTx <;> simp [decoded]

namespace Job

/-- What the loop relies on in a job: the transaction decodes, and the host parses. -/
def Possible (formats : Formats) (application : Application) : Job → Prop
  | .transaction clientTx => (formats.decodeRequest clientTx).isSome
  | .respondToClient clientName _ => ∀ info, application.contacts.get clientName = some info →
      (formats.parseIp info.host).isSome
  | .respondToContact info _ => (formats.parseIp info.pasvHost).isSome
  | _ => True

/-- The job does not wait: the channel of the connection has room, or it is closed. -/
def Ready (sender : SimpleSender) : Job → Prop
  | .send address _ => ∀ connection, sender.connections address = some connection →
      connection.closed = true ∨ connection.channel.length < 1000
  | _ => True

/-- A job that reads a batch finds one. -/
def Stored (store : Store) : Job → Prop
  | .read digest => (store.read digest).isSome
  | _ => True

end Job

/-- The loop has done all its work. -/
def Analysis.Completed (analysis : Analysis) : Prop :=
  analysis.jobs = [] ∧ analysis.panicked = false

/-- The loop is polled again and again. -/
def Polled (events : Nat → AnalysisEvent) : Prop :=
  ∀ first, ∃ last, first ≤ last ∧ ∃ refused, events last = .turn refused

section

variable {sender : SimpleSender} {address : ClientAddr}

/-- A call of `send` comes back exactly when the job is ready. -/
theorem Job.sending_isSome (job : Job) (refused : Bool) :
    (job.sending sender refused).isSome ↔ job.Ready sender := by
  cases job with
  | send address data =>
      simp only [Job.sending, Job.Ready, Option.isSome_map, SimpleSender.send]
      cases sender.connections address with
      | none => simp
      | some connection =>
          by_cases closed : connection.closed = true
          · simp [closed]
          · by_cases room : connection.channel.length < 1000 <;> simp [closed, room]
  | _ => simp [Job.sending, Job.Ready]

/-- A job is done when nothing that it relies on fails. -/
theorem Job.perform_isSome {job : Job} {store : Store} {application : Application}
    (stored : job.Stored store) :
    (job.perform formats store application).isSome ↔ job.Possible formats application := by
  cases job with
  | read digest => simpa [Job.perform, Job.Possible, Job.Stored] using stored
  | respondToClient clientName response =>
      simp only [Job.perform, Job.Possible]
      cases application.contacts.get clientName <;> simp
  | _ => simp [Job.perform, Job.Possible]

/-- A job that is ready stays ready until the loop is polled. -/
theorem Job.Ready.run {job : Job} (ready : job.Ready sender)
    (event : SimpleSender.ConnectionEvent) : job.Ready (sender.run address event) := by
  cases job with
  | send other data =>
      intro connection found
      unfold SimpleSender.run at found
      cases current : sender.connections address with
      | none =>
          rw [current] at found
          exact ready connection found
      | some before =>
          rw [current] at found
          by_cases same : other = address
          · subst same
            rw [SimpleSender.insert_same] at found
            cases found
            exact before.step_room event (ready before current)
          · rw [SimpleSender.insert_other _ _ same] at found
            exact ready connection found
  | _ => trivial

end

namespace Analysis

variable {store : Store}

/-- Each job that the loop turns to is possible then, and does not wait for ever. -/
def Unhindered (formats : Formats) (run : Schedule Analysis AnalysisEvent) : Prop :=
  ∀ time refused job rest, run.events time = .turn refused →
    (run.state time).jobs = job :: rest →
      job.Possible formats (run.state time).application ∧
        ∃ later, time ≤ later ∧ job.Ready (run.state later).sender

section

variable {analysis : Analysis}

/-- A turn changes nothing without a job that is ready. Otherwise it panics, or it does the job
and puts the work that the job leads to in front. -/
theorem turn_cases (formats : Formats) (store : Store) (analysis : Analysis) (refused : Bool) :
    (analysis.turn formats store refused = analysis ∧
      ∀ job rest, analysis.jobs = job :: rest → analysis.panicked = false →
        ¬ job.Ready analysis.sender) ∨
    ∃ job rest, analysis.jobs = job :: rest ∧ analysis.panicked = false ∧
      job.Ready analysis.sender ∧ ((job.perform formats store analysis.application = none ∧
        analysis.turn formats store refused = { analysis with panicked := true }) ∨
      ∃ application work sender, job.sending analysis.sender refused = some sender ∧
        job.perform formats store analysis.application = some (application, work) ∧
        analysis.turn formats store refused = ⟨application, sender, work ++ rest, false⟩) := by
  unfold turn
  cases running : analysis.panicked with
  | true => exact .inl ⟨by simp only, fun _ _ _ => (nomatch ·)⟩
  | false =>
      cases next : analysis.jobs with
      | nil => exact .inl ⟨by simp only, fun _ _ => (nomatch ·)⟩
      | cons job rest =>
          cases sends : job.sending analysis.sender refused with
          | none =>
              refine .inl ⟨by simp only [sends], ?_⟩
              rintro _ _ ⟨⟩ - ready
              rw [← Job.sending_isSome job refused, sends] at ready
              cases ready
          | some sender =>
              refine .inr ⟨job, rest, rfl, rfl, ?_, ?_⟩
              · rw [← Job.sending_isSome job refused, sends]
                rfl
              · simp only [sends]
                cases job.perform formats store analysis.application with
                | none => exact .inl ⟨rfl, rfl⟩
                | some performed => exact .inr ⟨performed.1, performed.2, sender, rfl, rfl, rfl⟩

/-- After a panic the loop does nothing. -/
theorem step_panicked (event : AnalysisEvent) (panicked : analysis.panicked = true) :
    (analysis.step formats store event).panicked = true := by
  cases event with
  | turn refused =>
      rw [step, turn, panicked]
      exact panicked
  | _ => exact panicked

/-- A loop without work stays as it is. -/
theorem step_completed (event : AnalysisEvent) (completed : analysis.Completed) :
    (analysis.step formats store event).Completed := by
  obtain ⟨done, running⟩ := completed
  cases event with
  | turn refused =>
      rw [step, turn, done, running]
      exact ⟨done, running⟩
  | _ => exact ⟨done, running⟩

/-- Only the loop itself does a job or serves a request, and room in a channel stays. -/
theorem step_idle {event : AnalysisEvent} (idle : ∀ refused, event ≠ .turn refused) :
    (analysis.step formats store event).jobs = analysis.jobs ∧
      (analysis.step formats store event).panicked = analysis.panicked ∧
      (analysis.step formats store event).application.databanks =
        analysis.application.databanks ∧
      ∀ job : Job, job.Ready analysis.sender →
        job.Ready (analysis.step formats store event).sender := by
  cases event with
  | turn refused => exact absurd rfl (idle refused)
  | register clientName info => exact ⟨rfl, rfl, rfl, fun _ => id⟩
  | connection address event => exact ⟨rfl, rfl, rfl, fun _ ready => ready.run event⟩

/-- The work that a job leads to reads no batch. -/
theorem perform_stored {job : Job} {application after : Application} {work : List Job}
    (performed : job.perform formats store application = some (after, work)) :
    ∀ other ∈ work, other.Stored store := by
  cases job with
  | read digest =>
      obtain ⟨value, _, isWork⟩ := Option.map_eq_some_iff.mp performed
      split at isWork <;> cases isWork <;> simp [Job.Stored]
  | transaction clientTx =>
      obtain ⟨request, _, isWork⟩ := Option.map_eq_some_iff.mp performed
      cases isWork
      simp [Job.Stored]
  | respondToClient clientName response =>
      simp only [Job.perform] at performed
      split at performed
      · cases performed
        simp
      · obtain ⟨ip, _, isWork⟩ := Option.map_eq_some_iff.mp performed
        cases isWork
        simp [Job.Stored]
  | respondToAllClient weights =>
      simp only [Job.perform, Option.some.injEq, Prod.mk.injEq] at performed
      rw [← performed.2]
      intro other inside
      obtain ⟨entry, _, rfl⟩ := List.mem_map.mp inside
      trivial
  | respondToContact info weights =>
      obtain ⟨ip, _, isWork⟩ := Option.map_eq_some_iff.mp performed
      cases isWork
      simp [Job.Stored]
  | send address data =>
      cases performed
      simp

/-- The loop finds every batch that it has to read. -/
theorem step_stored (event : AnalysisEvent) (stored : ∀ job ∈ analysis.jobs, job.Stored store) :
    ∀ job ∈ (analysis.step formats store event).jobs, job.Stored store := by
  cases event with
  | turn refused =>
      rw [step]
      obtain ⟨same, _⟩ | ⟨job, rest, isJobs, _, _, ⟨_, stops⟩ | ⟨_, work, _, _, performed, goes⟩⟩ :=
        turn_cases formats store analysis refused
      · rw [same]
        exact stored
      · rw [stops]
        exact stored
      · rw [goes]
        rw [isJobs] at stored
        intro other inside
        obtain new | old := List.mem_append.mp inside
        · exact perform_stored performed other new
        · exact stored other (List.mem_cons_of_mem _ old)
  | _ => exact stored

end

/-- A run of the loop that is polled again and again, with all its batches stored and nothing that
hinders it. -/
structure Proceeds (formats : Formats) (store : Store) (run : Schedule Analysis AnalysisEvent) :
    Prop where
  step : run.step = Analysis.step formats store
  stored : ∀ job ∈ run.initial.jobs, job.Stored store
  polled : Polled run.events
  unhindered : Unhindered formats run

section

variable {run : Schedule Analysis AnalysisEvent} {time : Nat} {job : Job} {rest : List Job}

/-- At every time the digests that are still to be read are in the store. -/
theorem state_stored (step : run.step = Analysis.step formats store)
    (stored : ∀ job ∈ run.initial.jobs, job.Stored store) (time : Nat) :
    ∀ job ∈ (run.state time).jobs, job.Stored store := by
  refine Schedule.invariant (fun state : Analysis => ∀ job ∈ state.jobs, job.Stored store) stored
    (fun middle holds => ?_) time
  rw [Schedule.state_succ, step]
  exact step_stored _ holds

/-- The loop is polled at some later time when the job at its head is ready. -/
theorem Proceeds.ready (proceeds : Proceeds formats store run)
    (next : (run.state time).jobs = job :: rest) :
    ∃ later, time ≤ later ∧ (∃ refused, run.events later = .turn refused) ∧
      job.Ready (run.state later).sender := by
  obtain ⟨first, polled, ⟨refused, isTurn⟩, sameJobs⟩ := Schedule.first_time
    (fun state : Analysis => state.jobs = job :: rest) (proceeds.polled time) next
    fun middle _ idle kept => by
      rw [Schedule.state_succ, proceeds.step, (step_idle (not_exists.mp idle)).1]
      exact kept
  obtain ⟨_, room, order, ready⟩ := proceeds.unhindered first refused job rest isTurn sameJobs
  obtain ⟨last, after, isTurn, ready⟩ := Schedule.first_time
    (fun state : Analysis => job.Ready state.sender) (proceeds.polled room) ready
    fun middle _ idle kept => by
      rw [Schedule.state_succ, proceeds.step]
      exact (step_idle (not_exists.mp idle)).2.2.2 job kept
  exact ⟨last, polled.trans (order.trans after), isTurn, ready⟩

/-- The loop does the job at its head at some later time. -/
theorem Proceeds.performs (proceeds : Proceeds formats store run)
    (next : (run.state time).jobs = job :: rest) (running : (run.state time).panicked = false) :
    ∃ later work, time ≤ later ∧
      job.perform formats store (run.state later).application =
        some ((run.state (later + 1)).application, work) ∧
      (run.state later).application.databanks = (run.state time).application.databanks ∧
      (run.state (later + 1)).jobs = work ++ rest ∧
      (run.state (later + 1)).panicked = false := by
  obtain ⟨last, order, ⟨⟨refused, isTurn⟩, ready⟩, isNext, isRunning, same⟩ := Schedule.first_time
    (fun state : Analysis => state.jobs = job :: rest ∧ state.panicked = false ∧
      state.application.databanks = (run.state time).application.databanks)
    (proceeds.ready next) ⟨next, running, rfl⟩ fun middle _ waits kept => by
      rw [Schedule.state_succ, proceeds.step]
      by_cases isTurn : ∃ refused, run.events middle = .turn refused
      · obtain ⟨refused, isTurn⟩ := isTurn
        rw [isTurn, Analysis.step]
        obtain ⟨same, _⟩ | ⟨other, _, isNext, _, ready, _⟩ :=
          turn_cases formats store (run.state middle) refused
        · rw [same]
          exact kept
        · cases kept.1.symm.trans isNext
          exact absurd ⟨⟨refused, isTurn⟩, ready⟩ waits
      · obtain ⟨sameJobs, samePanicked, sameDatabanks, _⟩ := step_idle (not_exists.mp isTurn)
        rw [sameJobs, samePanicked, sameDatabanks]
        exact kept
  refine ⟨last, ?_⟩
  rw [Schedule.state_succ, proceeds.step, isTurn, Analysis.step]
  obtain ⟨_, waits⟩ | ⟨_, _, isJob, _, _, ⟨fails, _⟩ | ⟨_, work, _, _, performed, goes⟩⟩ :=
    turn_cases formats store (run.state last) refused
  · exact absurd ready (waits job rest isNext isRunning)
  · cases isNext.symm.trans isJob
    have stored := state_stored proceeds.step proceeds.stored last job
      (isNext ▸ List.mem_cons_self ..)
    have possible := (proceeds.unhindered last refused job rest isTurn isNext).1
    rw [← Job.perform_isSome stored, fails] at possible
    cases possible
  · cases isNext.symm.trans isJob
    rw [goes]
    exact ⟨work, order, performed, same, rfl, rfl⟩

/-- The run gets past the jobs, and its databanks have served the requests. -/
def Passes (run : Schedule Analysis AnalysisEvent) (jobs : List Job)
    (requests : List ClientRequest) : Prop :=
  ∀ time rest, (run.state time).jobs = jobs ++ rest → (run.state time).panicked = false →
    ∃ later, time ≤ later ∧ (run.state later).jobs = rest ∧
      (run.state later).panicked = false ∧
      (run.state later).application.databanks =
        (run.state time).application.databanks.served requests

/-- No work is done at once and serves no request. -/
theorem Passes.nil : Passes run [] [] :=
  fun time _ isRest running => ⟨time, le_rfl, isRest, running, rfl⟩

/-- Work in sequence serves the requests of its parts in sequence. -/
theorem Passes.append {first second : List Job} {requests requests' : List ClientRequest}
    (passes : Passes run first requests) (passes' : Passes run second requests') :
    Passes run (first ++ second) (requests ++ requests') := by
  intro time rest isJobs running
  rw [List.append_assoc] at isJobs
  obtain ⟨middle, order, isSecond, running, served⟩ := passes time _ isJobs running
  obtain ⟨last, order', isRest, running, served'⟩ := passes' middle rest isSecond running
  refine ⟨last, order.trans order', isRest, running, ?_⟩
  rw [served', served, Databanks.served_append]

/-- A job is passed when its own work and the work that it leads to are. -/
theorem Proceeds.passes (proceeds : Proceeds formats store run)
    (requests requests' : List ClientRequest)
    (leads : ∀ application after work,
      job.perform formats store application = some (after, work) →
        after.databanks = application.databanks.served requests ∧ Passes run work requests') :
    Passes run [job] (requests ++ requests') := by
  intro time rest isJobs running
  obtain ⟨later, work, order, performed, same, isWork, running⟩ :=
    proceeds.performs isJobs running
  obtain ⟨changes, passes⟩ := leads _ _ _ performed
  obtain ⟨last, order', isRest, running, served⟩ := passes (later + 1) rest isWork running
  refine ⟨last, order.trans ((Nat.le_succ later).trans order'), isRest, running, ?_⟩
  rw [served, changes, same, Databanks.served_append]

/-- A list of similar jobs is passed one after the other. -/
theorem passes_map {Item : Type} {items : List Item} {makes : Item → Job}
    {requests : Item → List ClientRequest}
    (each : ∀ item ∈ items, Passes run [makes item] (requests item)) :
    Passes run (items.map makes) (items.flatMap requests) := by
  induction items with
  | nil => exact .nil
  | cons item items ih =>
      obtain ⟨first, later⟩ := List.forall_mem_cons.mp each
      exact first.append (ih later)

/-- A send is done some time when the loop proceeds, and it serves no request. -/
theorem Proceeds.passes_send (proceeds : Proceeds formats store run) (address : ClientAddr)
    (data : ClientMessage) : Passes run [.send address data] [] := by
  refine proceeds.passes [] [] fun application after work performed => ?_
  cases performed
  exact ⟨rfl, .nil⟩

/-- The response to one contact is done some time and serves no request. -/
theorem Proceeds.passes_respondToContact (proceeds : Proceeds formats store run)
    (info : SimpleRegisterInfo) (weights : WeightsResponse) :
    Passes run [.respondToContact info weights] [] := by
  refine proceeds.passes [] [] fun application after work performed => ?_
  obtain ⟨ip, _, isWork⟩ := Option.map_eq_some_iff.mp performed
  cases isWork
  exact ⟨rfl, proceeds.passes_send _ _⟩

/-- The response to a client is done some time, whether it is registered or not. -/
theorem Proceeds.passes_respondToClient (proceeds : Proceeds formats store run)
    (clientName : String) (response : Response) :
    Passes run [.respondToClient clientName response] [] := by
  refine proceeds.passes [] [] fun application after work performed => ?_
  simp only [Job.perform] at performed
  split at performed
  · cases performed
    exact ⟨rfl, .nil⟩
  · obtain ⟨ip, _, isWork⟩ := Option.map_eq_some_iff.mp performed
    cases isWork
    exact ⟨rfl, proceeds.passes_send _ _⟩

/-- The responses to all contacts are done some time. -/
theorem Proceeds.passes_respondToAllClient (proceeds : Proceeds formats store run)
    (weights : WeightsResponse) : Passes run [.respondToAllClient weights] [] := by
  refine proceeds.passes [] [] fun application after work performed => ?_
  simp only [Job.perform, Option.some.injEq, Prod.mk.injEq] at performed
  obtain ⟨rfl, rfl⟩ := performed
  have passes := passes_map fun entry (_ : entry ∈ application.contacts.entries) =>
    proceeds.passes_respondToContact entry.2 weights
  rw [List.flatMap_eq_nil_iff.mpr fun _ _ => rfl] at passes
  exact ⟨rfl, passes⟩

/-- A transaction is executed some time and serves its request. -/
theorem Proceeds.passes_transaction (proceeds : Proceeds formats store run)
    (clientTx : List UInt8) :
    Passes run [.transaction clientTx] (formats.decodeRequest clientTx).toList := by
  rw [← List.append_nil (formats.decodeRequest clientTx).toList]
  refine proceeds.passes _ _ fun application after work performed => ?_
  obtain ⟨request, decoded, isWork⟩ := Option.map_eq_some_iff.mp performed
  cases isWork
  rw [decoded]
  constructor
  · exact (application.databanks.serve_uuid request (formats.newV4 application.drawn)).2
  · refine (proceeds.passes_respondToClient _ _).append ?_
    have passes := passes_map fun weights (_ : weights ∈ (application.databanks.serve request
      (formats.newV4 application.drawn)).2.1.toList) => proceeds.passes_respondToAllClient weights
    rwa [List.flatMap_eq_nil_iff.mpr fun _ _ => rfl] at passes

/-- A digest of the payload is read some time, and then the requests of its batch are served. -/
theorem Proceeds.passes_read (proceeds : Proceeds formats store run) (digest : Digest) :
    Passes run [.read digest] (formats.requests (MempoolMessage.transactions
      ((store.read digest).bind fun value => formats.decodeMessage (formats.bytes value)))) := by
  refine proceeds.passes [] _ fun application after work performed => ?_
  obtain ⟨value, found, isWork⟩ := Option.map_eq_some_iff.mp performed
  rw [found, Option.bind_some]
  rcases isMessage : formats.decodeMessage (formats.bytes value) with
    _ | (batch | ⟨missing, requestor⟩)
  · rw [isMessage] at isWork
    cases isWork
    exact ⟨rfl, .nil⟩
  · rw [isMessage] at isWork
    cases isWork
    have passes := passes_map fun clientTx (_ : clientTx ∈ batch) =>
      proceeds.passes_transaction clientTx
    rw [← List.filterMap_eq_flatMap_toList] at passes
    exact ⟨rfl, passes⟩
  · rw [isMessage] at isWork
    cases isWork
    exact ⟨rfl, .nil⟩

/-- A run that nothing hinders serves every request of the block. -/
theorem Proceeds.completes {payload : List Digest} {application : Application}
    {sender : SimpleSender} {events : Nat → AnalysisEvent}
    (proceeds : Proceeds formats store (schedule formats store payload application sender events)) :
    ∃ last, ((schedule formats store payload application sender events).state last).Completed ∧
      ((schedule formats store payload application sender events).state
        last).application.databanks =
          application.databanks.served
            (formats.requests (formats.transactions store payload)) := by
  have passes := passes_map fun digest (_ : digest ∈ payload) => proceeds.passes_read digest
  obtain ⟨last, _, done, running, served⟩ := passes 0 [] (List.append_nil _).symm rfl
  refine ⟨last, ⟨done, running⟩, served.trans ?_⟩
  rw [Formats.requests, Formats.transactions, List.filterMap_flatMap]
  rfl

/-- After a panic the loop never completes its work. -/
theorem incomplete_of_panicked (steps : run.step = Analysis.step formats store) (time : Nat)
    (panicked : (run.state time).panicked = true) (last : Nat) :
    ¬ (run.state last).Completed := by
  intro completed
  have panics := Schedule.stable (fun state : Analysis => state.panicked = true)
    (Nat.le_max_left time last) panicked fun state event holds => steps ▸ step_panicked event holds
  have done := Schedule.stable Completed (Nat.le_max_right time last) completed
    fun state event holds => steps ▸ step_completed event holds
  rw [done.2] at panics
  cases panics

/-- A loop that completes its work was never hindered. -/
theorem unhindered_of_completed {last : Nat} (steps : run.step = Analysis.step formats store)
    (stored : ∀ job ∈ run.initial.jobs, job.Stored store)
    (completed : (run.state last).Completed) : Unhindered formats run := by
  intro time refused job rest isTurn isNext
  have before : time < last := by
    by_contra after
    have later := Schedule.stable Completed (Nat.le_of_not_lt after) completed
      fun state event done => steps ▸ step_completed event done
    rw [Completed, isNext] at later
    cases later.1
  have running (early : Nat) : (run.state early).panicked = false :=
    Bool.eq_false_iff.mpr fun panics => incomplete_of_panicked steps early panics last completed
  constructor
  · by_contra impossible
    have unperformed : job.perform formats store (run.state time).application = none := by
      rw [← Option.not_isSome_iff_eq_none, Job.perform_isSome]
      · exact impossible
      · exact state_stored steps stored time job (isNext ▸ List.mem_cons_self ..)
    have next := running (time + 1)
    rw [Schedule.state_succ, steps, isTurn, step] at next
    obtain ⟨_, waits⟩ | ⟨_, _, isJob, _, _, ⟨_, panics⟩ | ⟨_, _, _, _, performed, _⟩⟩ :=
      turn_cases formats store (run.state time) refused
    · have awaits := waits job rest isNext (running time)
      cases job with
      | send address data => exact impossible trivial
      | _ => exact awaits trivial
    · rw [panics] at next
      cases next
    · cases isNext.symm.trans isJob
      rw [unperformed] at performed
      cases performed
  · by_contra never
    have waits := Schedule.always (fun state : Analysis => state.jobs = job :: rest) before.le
      isNext fun middle order kept => by
        rw [Schedule.state_succ, steps]
        by_cases isTurn : ∃ refused, run.events middle = .turn refused
        · obtain ⟨refused, isTurn⟩ := isTurn
          rw [isTurn, step]
          obtain ⟨same, _⟩ | ⟨_, _, isJob, _, ready, _⟩ :=
            turn_cases formats store (run.state middle) refused
          · rw [same]
            exact kept
          · cases kept.symm.trans isJob
            exact absurd ⟨middle, order, ready⟩ never
        · rw [(step_idle (not_exists.mp isTurn)).1]
          exact kept
    rw [completed.1] at waits
    cases waits

end

end Analysis

namespace Application

section

variable {node : Application} {clientName : String} {info : SimpleRegisterInfo}

/-- A client without an entry gets an error that the loop logs. -/
theorem respondToClient_unknown (response : Response)
    (unknown : node.contacts.get clientName = none) :
    respondToClient formats clientName response node =
      (.error (.registrationError clientName), node) := by
  unfold respondToClient
  change Handler.bind Handler.read _ node = _
  simp only [Handler.bind, Handler.read, unknown]
  rfl

/-- A host string that is no address panics the loop. -/
theorem respondToClient_panics (response : Response)
    (registered : node.contacts.get clientName = some info)
    (malformed : formats.parseIp info.host = none) :
    respondToClient formats clientName response node =
      (.panic "called Result::unwrap() on an Err value", node) := by
  unfold respondToClient
  change Handler.bind Handler.read _ node = _
  simp only [Handler.bind, Handler.read, registered, malformed]
  rfl

/-- The response goes to the address and the port of the entry. -/
theorem respondToClient_sends (response : Response) {ip : IpAddr}
    (registered : node.contacts.get clientName = some info)
    (parsed : formats.parseIp info.host = some ip) :
    respondToClient formats clientName response node =
      (.ok (), node.send ip info.port (.response response)) := by
  unfold respondToClient
  change Handler.bind Handler.read _ node = _
  simp only [Handler.bind, Handler.read, registered, parsed]
  rfl

end

end Application

namespace Job

variable (formats : Formats) (store : Store)

/-- What a job does when no send makes the loop wait. -/
def run : Job → ApplicationTask Unit
  | .read digest =>
      match store.read digest with
      | none => Handler.crash "Digest not in block_store."
      | some value =>
          Application.analyzeMessage formats (formats.decodeMessage (formats.bytes value))
  | .transaction clientTx => Application.analyzeTransaction formats clientTx
  | .respondToClient clientName response =>
      Handler.logged (Application.respondToClient formats clientName response)
  | .respondToAllClient weights => Application.respondToAllClient formats weights
  | .respondToContact info weights =>
      Application.respondToContacts formats weights [(info.host, info)]
  | .send address data => Handler.update (Application.send address.ip address.port data)

def runAll : List Job → ApplicationTask Unit
  | [] => return ()
  | job :: rest => do
      job.run formats store
      runAll rest

end Job

namespace Job

variable {store : Store}

/-- Work in sequence runs its parts in sequence. -/
theorem runAll_append (first second : List Job) :
    runAll formats store (first ++ second) =
      runAll formats store first >>= fun _ => runAll formats store second := by
  induction first with
  | nil => rfl
  | cons job rest ih =>
      rw [List.cons_append, runAll, ih, runAll, Handler.bind_assoc]

/-- A single piece of work runs as such. -/
theorem runAll_singleton (job : Job) : runAll formats store [job] = job.run formats store :=
  Handler.bind_return _

/-- The work of a batch is what `analyze_batch` does. -/
theorem runAll_transactions (batch : List (List UInt8)) :
    runAll formats store (batch.map .transaction) = Application.analyzeBatch formats batch := by
  induction batch with
  | nil => rfl
  | cons clientTx rest ih =>
      rw [List.map_cons, runAll, ih]
      rfl

/-- The work for all contacts is what `respond_to_all_client` does. -/
theorem runAll_contacts (weights : WeightsResponse) (entries : List (String × SimpleRegisterInfo)) :
    runAll formats store (entries.map fun entry => .respondToContact entry.2 weights) =
      Application.respondToContacts formats weights entries := by
  induction entries with
  | nil => rfl
  | cons entry rest ih =>
      obtain ⟨clientName, info⟩ := entry
      rw [List.map_cons, runAll, ih]
      simp only [run, Application.respondToContacts]
      cases formats.parseIp info.pasvHost <;> rfl

/-- The work of a payload is what `analyze_block` does. -/
theorem runAll_reads (payload : List Digest) :
    runAll formats store (payload.map .read) =
      Application.analyzeBlock formats store payload := by
  induction payload with
  | nil => rfl
  | cons digest rest ih =>
      rw [List.map_cons, runAll, ih]
      simp only [run, Application.analyzeBlock]
      cases store.read digest <;> rfl

/-- A job does what the work that it leads to does. -/
theorem run_performed {job : Job} {application after : Application} {work : List Job}
    (performed : job.perform formats store application = some (after, work)) :
    job.run formats store application = runAll formats store work after := by
  cases job with
  | read digest =>
      obtain ⟨value, found, isWork⟩ := Option.map_eq_some_iff.mp performed
      simp only [run, found]
      rcases isMessage : formats.decodeMessage (formats.bytes value) with
        _ | (batch | ⟨missing, requestor⟩)
      · rw [isMessage] at isWork
        cases isWork
        rfl
      · rw [isMessage] at isWork
        cases isWork
        rw [runAll_transactions]
        rfl
      · rw [isMessage] at isWork
        cases isWork
        rfl
  | transaction clientTx =>
      obtain ⟨request, decoded, isWork⟩ := Option.map_eq_some_iff.mp performed
      simp only [run, Application.analyzeTransaction, decoded]
      rw [Handler.read_bind]
      generalize application.databanks.getResponses request (formats.newV4 application.drawn)
        (formats.newV4 (application.drawn + 1)) = served at isWork ⊢
      obtain ⟨response, passiveResponse, databanks⟩ := served
      cases isWork
      rw [runAll]
      refine (Handler.update_bind ..).trans (Handler.bind_agree rfl fun _ middle _ => ?_)
      cases passiveResponse with
      | none => rfl
      | some weights =>
          rw [Option.toList_some, List.map_singleton, runAll_singleton]
          rfl
  | respondToClient clientName response =>
      simp only [perform] at performed
      split at performed
      · rename_i unknown
        cases performed
        simp only [run, Handler.logged, Application.respondToClient_unknown response unknown]
        rfl
      · rename_i info registered
        obtain ⟨ip, parsed, isWork⟩ := Option.map_eq_some_iff.mp performed
        cases isWork
        rw [runAll_singleton]
        simp only [run, Handler.logged,
          Application.respondToClient_sends response registered parsed]
        rfl
  | respondToAllClient weights =>
      simp only [perform, Option.some.injEq, Prod.mk.injEq] at performed
      obtain ⟨rfl, rfl⟩ := performed
      rw [runAll_contacts]
      rfl
  | respondToContact info weights =>
      obtain ⟨ip, parsed, isWork⟩ := Option.map_eq_some_iff.mp performed
      cases isWork
      rw [runAll_singleton]
      simp only [run, Application.respondToContacts, parsed]
      rfl
  | send address data =>
      cases performed
      rfl

/-- A job without a result panics. -/
theorem run_unperformed {job : Job} {application : Application}
    (unperformed : job.perform formats store application = none) :
    ∃ message, job.run formats store application = (.panic message, application) := by
  cases job with
  | read digest =>
      simp only [run, Option.map_eq_none_iff.mp unperformed]
      exact ⟨_, rfl⟩
  | transaction clientTx =>
      simp only [run, Application.analyzeTransaction, Option.map_eq_none_iff.mp unperformed]
      exact ⟨_, rfl⟩
  | respondToClient clientName response =>
      simp only [perform] at unperformed
      split at unperformed
      · cases unperformed
      · rename_i info registered
        simp only [run, Handler.logged, Application.respondToClient_panics response registered
          (Option.map_eq_none_iff.mp unperformed)]
        exact ⟨_, rfl⟩
  | respondToAllClient weights => cases unperformed
  | respondToContact info weights =>
      simp only [run, Application.respondToContacts, Option.map_eq_none_iff.mp unperformed]
      exact ⟨_, rfl⟩
  | send address data => cases unperformed

end Job

namespace Analysis

variable {store : Store}

/-- What is left of the loop brings the outcome about, or the loop has panicked with it. -/
def Computes (formats : Formats) (store : Store) (outcome : Exit RespondError Unit × Application)
    (analysis : Analysis) : Prop :=
  if analysis.panicked then ∃ message, outcome = (.panic message, analysis.application)
  else Job.runAll formats store analysis.jobs analysis.application = outcome

/-- A turn of the loop brings it one step further to the outcome that it computes. -/
theorem Computes.turn {outcome : Exit RespondError Unit × Application} {analysis : Analysis}
    (computes : Computes formats store outcome analysis) (refused : Bool) :
    Computes formats store outcome (analysis.turn formats store refused) := by
  obtain ⟨same, _⟩ | ⟨job, rest, isNext, running, _, turn⟩ :=
    turn_cases formats store analysis refused
  · rw [same]
    exact computes
  · unfold Computes at computes ⊢
    rw [running, isNext] at computes
    obtain ⟨unperformed, panics⟩ | ⟨_, work, _, _, performed, goes⟩ := turn
    · obtain ⟨message, panic⟩ := Job.run_unperformed unperformed
      rw [panics]
      exact ⟨message, computes.symm.trans (Handler.bind_panic _ panic)⟩
    · rw [goes, Job.runAll_append]
      exact (Handler.bind_same (Job.run_performed performed)).symm.trans computes

/-- While no client registers, the loop computes what `analyzeBlock` does, and what it has done
when it panics is the same. -/
theorem computes_analyzeBlock {payload : List Digest} {application : Application}
    {sender : SimpleSender} {events : Nat → AnalysisEvent}
    (unregistered : ∀ time clientName info, events time ≠ .register clientName info)
    (time : Nat) : Computes formats store
      (Application.analyzeBlock formats store payload application)
      ((schedule formats store payload application sender events).state time) := by
  refine Schedule.invariant _ ?_ (fun middle computes => ?_) time
  · exact congrFun (Job.runAll_reads payload) application
  · rw [Schedule.state_succ]
    change Computes formats store _ (Analysis.step formats store _ (events middle))
    cases isEvent : events middle with
    | turn refused => exact computes.turn refused
    | register clientName info => exact absurd isEvent (unregistered middle clientName info)
    | connection address event => exact computes

/-- Without registrations a loop that completes a block does what `analyzeBlock` does. -/
theorem completed_analyzeBlock {payload : List Digest} {application : Application}
    {sender : SimpleSender} {events : Nat → AnalysisEvent}
    (unregistered : ∀ time clientName info, events time ≠ .register clientName info) {last : Nat}
    (completed :
      ((schedule formats store payload application sender events).state last).Completed) :
    Application.analyzeBlock formats store payload application = (.ok (),
      ((schedule formats store payload application sender events).state last).application) := by
  have computes : Computes formats store
      (Application.analyzeBlock formats store payload application)
      ((schedule formats store payload application sender events).state last) :=
    computes_analyzeBlock unregistered last
  unfold Computes at computes
  rw [completed.1, completed.2] at computes
  exact computes.symm

end Analysis

end

end DeflHotstuff
