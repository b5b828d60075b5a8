import DeflHotstuff.Construction.Replica
import DeflHotstuff.Proof.Ledger
import DeflHotstuff.Proof.Survival

namespace DeflHotstuff

open Verification

/-- The response carries the last databank. -/
def WeightsResponse.Reports (weights : WeightsResponse) (node : Databanks) : Prop :=
  weights.rLastEpochId = node.lastDeflDatabank.epochId ∧
    weights.wLast = node.lastDeflDatabank.clientWeights

/-- The response tells the outcome of the last of the requests. -/
def Response.Tells (response : Response) (node : Databanks) (requests : List ClientRequest) :
    Prop :=
  ∃ earlier request, requests = earlier ++ [request] ∧
    response.requestUuid = request.requestUuid ∧
      response.stat = ((node.served earlier).serve request "").1.toI32

/-- Requests before the last do not change what a response tells. -/
theorem Response.Tells.after {response : Response} {node : Databanks}
    {requests : List ClientRequest} (before : List ClientRequest)
    (tells : response.Tells (node.served before) requests) :
    response.Tells node (before ++ requests) := by
  obtain ⟨earlier, request, rfl, uuid, stat⟩ := tells
  refine ⟨before ++ earlier, request, (List.append_assoc _ _ _).symm, uuid, ?_⟩
  rw [Databanks.served_append]
  exact stat

namespace Databanks

variable {node : Databanks} {request : ClientRequest} {uuid : String}

/-- The current epoch follows the last one. -/
def Linked (node : Databanks) : Prop :=
  node.lastDeflDatabank.epochId + 1 = node.curDeflDatabank.epochId

/-- A request leaves the last databank alone, or the current one becomes the last one. -/
theorem serve_last (linked : node.Linked) : (node.serve request uuid).2.2.Linked ∧
    ((node.serve request uuid).2.2.lastDeflDatabank = node.lastDeflDatabank ∨
      (node.serve request uuid).2.2.lastDeflDatabank.epochId =
        node.lastDeflDatabank.epochId + 1) := by
  unfold serve
  split
  · split <;> exact ⟨linked, .inl rfl⟩
  · split
    · split
      · dsimp only
        split
        · exact ⟨linked, .inl rfl⟩
        · exact ⟨rfl, .inr linked.symm⟩
      · exact ⟨linked, .inl rfl⟩
    · exact ⟨linked, .inl rfl⟩
  · exact ⟨linked, .inl rfl⟩

/-- A passive response reports the databank that the request closed. -/
theorem serve_reports {weights : WeightsResponse}
    (passes : (node.serve request uuid).2.1 = some weights) :
    weights.Reports (node.serve request uuid).2.2 := by
  revert passes
  unfold serve
  split
  · split <;> exact nofun
  · split
    · split
      · dsimp only
        split
        · exact nofun
        · rintro ⟨⟩
          exact ⟨rfl, rfl⟩
      · exact nofun
    · exact nofun
  · exact nofun

/-- The identifier of a passive response does not decide the status. -/
theorem serve_status (node : Databanks) (request : ClientRequest) (uuid : String) :
    (node.serve request uuid).1 = (node.serve request "").1 := by
  unfold serve
  split
  · split <;> rfl
  · split
    · split
      · dsimp only
        split <;> rfl
      · rfl
    · rfl
  · rfl

/-- The epochs stay linked while requests are served. -/
theorem served_linked (linked : node.Linked) (requests : List ClientRequest) :
    (node.served requests).Linked := by
  induction requests generalizing node with
  | nil => exact linked
  | cons request rest ih => exact ih (serve_last linked).1

/-- The last epoch only grows, and the last databank of an epoch stays what it was. -/
theorem served_last (linked : node.Linked) (requests : List ClientRequest) :
    node.lastDeflDatabank.epochId ≤ (node.served requests).lastDeflDatabank.epochId ∧
      ((node.served requests).lastDeflDatabank.epochId = node.lastDeflDatabank.epochId →
        (node.served requests).lastDeflDatabank = node.lastDeflDatabank) := by
  induction requests generalizing node with
  | nil => exact ⟨le_rfl, fun _ => rfl⟩
  | cons request rest ih =>
      obtain ⟨next, step⟩ := @serve_last node request "" linked
      obtain ⟨grows, same⟩ := ih next
      change _ ≤ ((node.serve request "").2.2.served rest).lastDeflDatabank.epochId ∧
        (((node.serve request "").2.2.served rest).lastDeflDatabank.epochId = _ → _)
      rcases step with kept | closed
      · rw [kept] at grows same
        exact ⟨grows, same⟩
      · refine ⟨by omega, fun equal => ?_⟩
        omega

/-- The first epoch follows the one before the start. -/
theorem new_linked (quorum : Nat) : (Databanks.new quorum).Linked := rfl

/-- Two responses about one epoch carry the same weights when one log of requests is a prefix of
the other. -/
theorem reports_agree {weights weights' : WeightsResponse} {requests requests' : List ClientRequest}
    (linked : node.Linked) (reports : weights.Reports (node.served requests))
    (reports' : weights'.Reports (node.served requests')) (agree : requests <+: requests')
    (same : weights.rLastEpochId = weights'.rLastEpochId) : weights.wLast = weights'.wLast := by
  obtain ⟨more, rfl⟩ := agree
  rw [served_append] at reports'
  have kept := (served_last (served_linked linked requests) more).2
  rw [reports.2, reports'.2, kept]
  rw [← reports.1, ← reports'.1, same]

/-- Two responses about one epoch carry the same weights when they report first parts of two logs,
one of which is a prefix of the other. -/
theorem reports_agree_of_logs {weights weights' : WeightsResponse}
    {requests requests' log log' : List ClientRequest} (linked : node.Linked)
    (reports : weights.Reports (node.served requests))
    (reports' : weights'.Reports (node.served requests')) (within : requests <+: log)
    (within' : requests' <+: log') (agree : log <+: log' ∨ log' <+: log)
    (same : weights.rLastEpochId = weights'.rLastEpochId) : weights.wLast = weights'.wLast := by
  have comparable : requests <+: requests' ∨ requests' <+: requests := by
    rcases agree with grows | grows
    · exact List.prefix_or_prefix_of_prefix (within.trans grows) within'
    · exact List.prefix_or_prefix_of_prefix within (within'.trans grows)
  rcases comparable with before | after
  · exact reports_agree linked reports reports' before same
  · exact (reports_agree linked reports' reports after same.symm).symm

end Databanks

namespace Application

/-- The weights responses that the application handed to the network. -/
def weightsSent (node : Application) : List WeightsResponse :=
  node.network.filterMap fun sent => match sent.2.2 with
    | .weights weights => some weights
    | .response _ => none

/-- A weights response that was sent is on the network. -/
theorem mem_weightsSent {node : Application} {weights : WeightsResponse}
    (sent : weights ∈ node.weightsSent) :
    ∃ ip port, (ip, port, .weights weights) ∈ node.network := by
  obtain ⟨⟨ip, port, message⟩, inside, isWeights⟩ := List.mem_filterMap.mp sent
  cases message with
  | response response => cases isWeights
  | weights other =>
      cases isWeights
      exact ⟨ip, port, inside⟩

/-- The message reports the databanks after the requests, or it tells the outcome of the last. -/
def Accounts (message : ClientMessage) (node : Databanks) (requests : List ClientRequest) : Prop :=
  (∃ weights, message = .weights weights ∧ weights.Reports (node.served requests)) ∨
    ∃ response, message = .response response ∧ response.Tells node requests

/-- Earlier requests do not change what a message accounts for. -/
theorem Accounts.after {message : ClientMessage} {node : Databanks} {requests : List ClientRequest}
    (before : List ClientRequest) (accounts : Accounts message (node.served before) requests) :
    Accounts message node (before ++ requests) := by
  rcases accounts with ⟨weights, isWeights, reports⟩ | ⟨response, isResponse, tells⟩
  · left
    refine ⟨weights, isWeights, ?_⟩
    rw [Databanks.served_append]
    exact reports
  · exact .inr ⟨response, isResponse, tells.after before⟩

/-- The application served the requests, and each message that it sent on the way accounts for some
of them. -/
structure Ran (requests : List ClientRequest) (node after : Application) : Prop where
  databanks : after.databanks = node.databanks.served requests
  accounts : ∀ sent ∈ after.network, sent ∈ node.network ∨
    ∃ earlier, earlier <+: requests ∧ Accounts sent.2.2 node.databanks earlier

/-- Nothing is run where nothing changes. -/
theorem Ran.refl (node : Application) : Ran [] node node := ⟨rfl, fun _ => .inl⟩

/-- Two stretches of requests make one. -/
theorem Ran.trans {first second : List ClientRequest} {node middle after : Application}
    (ran : Ran first node middle) (ran' : Ran second middle after) :
    Ran (first ++ second) node after := by
  refine ⟨?_, fun sent inside => ?_⟩
  · rw [ran'.databanks, ran.databanks, Databanks.served_append]
  · rcases ran'.accounts sent inside with old | ⟨earlier, isEarlier, accounts⟩
    · apply (ran.accounts sent old).imp_right
      rintro ⟨earlier, isEarlier, accounts⟩
      exact ⟨earlier, isEarlier.trans (List.prefix_append _ _), accounts⟩
    · right
      refine ⟨first ++ earlier, (List.prefix_append_right_inj first).mpr isEarlier, ?_⟩
      rw [ran.databanks] at accounts
      exact accounts.after first

/-- The program serves the requests when it returns, and the first ones of them when it panics. -/
def Runs (program : ApplicationTask Unit) (requests : List ClientRequest) (node : Application) :
    Prop :=
  (∃ value, (program node).1 = .ok value ∧ Ran requests node (program node).2) ∨
    ((∀ value, (program node).1 ≠ .ok value) ∧
      ∃ served, served <+: requests ∧ Ran served node (program node).2)

/-- A program serves a part of its requests from the first on. -/
theorem Runs.served {program : ApplicationTask Unit} {requests : List ClientRequest}
    {node : Application} (runs : Runs program requests node) :
    ∃ served, served <+: requests ∧ Ran served node (program node).2 := by
  rcases runs with ⟨_, _, ran⟩ | ⟨_, served⟩
  · exact ⟨requests, List.prefix_rfl, ran⟩
  · exact served

/-- A program that returns at once serves no request. -/
theorem Runs.return {node : Application} : Runs (return ()) [] node :=
  .inl ⟨(), rfl, .refl node⟩

/-- A program that panics may leave all requests. -/
theorem Runs.crash {node : Application} {message : String} {requests : List ClientRequest} :
    Runs (Handler.crash message) requests node :=
  .inr ⟨fun _ => nofun, [], List.nil_prefix, .refl node⟩

/-- A read serves nothing. -/
theorem Runs.read {next : Application → ApplicationTask Unit} {requests : List ClientRequest}
    {node : Application} (runs : Runs (next node) requests node) :
    Runs (Handler.read >>= next) requests node := runs

/-- A change runs the requests that it serves. -/
theorem Runs.update {change : Application → Application} {requests : List ClientRequest}
    {node : Application} (ran : Ran requests node (change node)) :
    Runs (Handler.update change) requests node := .inl ⟨(), rfl, ran⟩

/-- Two programs in a row serve the requests of both. -/
theorem Runs.bind {first second : ApplicationTask Unit} {requests requests' : List ClientRequest}
    {node : Application} (runs : Runs first requests node)
    (next : ∀ after, Ran requests node after → Runs second requests' after) :
    Runs (first >>= fun _ => second) (requests ++ requests') node := by
  change Runs (Handler.bind first fun _ => second) _ node
  unfold Runs Handler.bind at *
  rcases outcome : first node with ⟨exit, middle⟩
  rw [outcome] at runs
  rcases runs with ⟨value, returns, ran⟩ | ⟨fails, served, isServed, ran⟩
  · cases returns
    rcases next middle ran with ⟨last, isLast, ran'⟩ | ⟨fails, served, isServed, ran'⟩
    · exact .inl ⟨last, isLast, ran.trans ran'⟩
    · exact .inr ⟨fails, _, (List.prefix_append_right_inj requests).mpr isServed, ran.trans ran'⟩
  · right
    cases exit with
    | ok value => exact absurd rfl (fails value)
    | _ => exact ⟨fun _ => nofun, served, isServed.trans (List.prefix_append _ _), ran⟩

/-- The last message of a step accounts for what the step served. -/
theorem Ran.send {requests : List ClientRequest} {node after : Application}
    (ran : Ran requests node after) (ip : IpAddr) (port : UInt16) {message : ClientMessage}
    (accounts : Accounts message node.databanks requests) :
    Ran requests node (after.send ip port message) := by
  refine ⟨ran.databanks, fun sent inside => ?_⟩
  rcases List.mem_append.mp inside with old | new
  · exact ran.accounts sent old
  · cases List.mem_singleton.mp new
    exact .inr ⟨requests, List.prefix_rfl, accounts⟩

section

variable [Crypto] {formats : Formats}

/-- The response to a request is part of the step that serves it. -/
theorem respondToClient_runs {change : Application → Application} {requests : List ClientRequest}
    {node : Application} (ran : Ran requests node (change node)) (clientName : String)
    {response : Response} (tells : response.Tells node.databanks requests) :
    Runs (Handler.update change >>= fun _ =>
      Handler.logged (respondToClient formats clientName response)) requests node := by
  have runs : (Handler.update change >>= fun _ =>
      Handler.logged (respondToClient formats clientName response)) node =
        Handler.logged (respondToClient formats clientName response) (change node) := rfl
  unfold Runs
  rw [runs]
  unfold Handler.logged
  cases registered : (change node).contacts.get clientName with
  | none =>
      rw [respondToClient_unknown response registered]
      exact .inl ⟨(), rfl, ran⟩
  | some info =>
      cases parsed : formats.parseIp info.host with
      | none =>
          rw [respondToClient_panics response registered parsed]
          exact .inr ⟨fun _ => nofun, requests, List.prefix_rfl, ran⟩
      | some ip =>
          rw [respondToClient_sends response registered parsed]
          exact .inl ⟨(), rfl, ran.send ip info.port (.inr ⟨response, rfl, tells⟩)⟩

/-- Responses to the contacts report the databanks and serve nothing. -/
theorem respondToContacts_runs (weights : WeightsResponse)
    (entries : List (String × SimpleRegisterInfo)) (node : Application)
    (reports : weights.Reports node.databanks) :
    Runs (respondToContacts formats weights entries) [] node := by
  induction entries generalizing node with
  | nil => exact .return
  | cons entry rest ih =>
      obtain ⟨clientName, info⟩ := entry
      unfold respondToContacts
      cases formats.parseIp info.pasvHost with
      | none => exact .crash
      | some ip =>
          have sends : Runs (Handler.update (send ip info.pasvPort (.weights weights))) [] node :=
            .update ((Ran.refl node).send ip info.pasvPort (.inl ⟨weights, rfl, reports⟩))
          refine sends.bind fun after ran => ih after ?_
          have same : after.databanks = node.databanks := ran.databanks
          rw [same]
          exact reports

/-- A transaction serves its request. -/
theorem analyzeTransaction_runs (node : Application) (clientTx : List UInt8) :
    Runs (analyzeTransaction formats clientTx) (formats.decodeRequest clientTx).toList node := by
  unfold analyzeTransaction
  cases formats.decodeRequest clientTx with
  | none => exact .crash
  | some request =>
      have changes := (node.databanks.serve_uuid request (formats.newV4 node.drawn)).2
      have status := node.databanks.serve_status request (formats.newV4 node.drawn)
      have passes {weights : WeightsResponse} :=
        @Databanks.serve_reports node.databanks request (formats.newV4 node.drawn) weights
      apply Runs.read
      unfold Databanks.getResponses
      generalize node.databanks.serve request (formats.newV4 node.drawn) = served
        at passes changes status
      obtain ⟨stat, passiveResponse, databanks⟩ := served
      dsimp only at passes changes status ⊢
      have served : Ran [request] node
          { node with databanks := databanks, drawn := node.drawn + 2 } :=
        ⟨changes, fun _ => .inl⟩
      have tells (responseUuid : String) :
          Response.Tells ⟨stat.toI32, responseUuid, request.requestUuid⟩ node.databanks [request] :=
        ⟨[], request, rfl, rfl, congrArg Status.toI32 status⟩
      have responds := @respondToClient_runs _ formats
        (fun node => { node with databanks := databanks, drawn := node.drawn + 2 }) _ _ served
        request.clientName _ (tells (formats.newV4 (node.drawn + 1)))
      change Runs _ ([request] ++ []) node
      refine responds.bind fun last ran => ?_
      have isLast : last.databanks = databanks := by
        rw [ran.databanks]
        exact changes.symm
      cases passiveResponse with
      | none => exact .return
      | some weights =>
          apply Runs.read
          apply respondToContacts_runs
          rw [isLast]
          exact passes rfl

/-- A batch serves the requests of its transactions. -/
theorem analyzeBatch_runs (batch : List (List UInt8)) (node : Application) :
    Runs (analyzeBatch formats batch) (formats.requests batch) node := by
  induction batch generalizing node with
  | nil => exact .return
  | cons clientTx rest ih =>
      unfold analyzeBatch
      rw [Formats.requests_cons]
      exact (analyzeTransaction_runs node clientTx).bind fun after _ => ih after

/-- A message runs the requests of its transactions. -/
theorem analyzeMessage_runs (message : Option MempoolMessage) (node : Application) :
    Runs (analyzeMessage formats message)
      (formats.requests (MempoolMessage.transactions message)) node := by
  rcases message with _ | (batch | ⟨missing, origin⟩)
  · exact .return
  · exact analyzeBatch_runs batch node
  · exact .return

/-- The obsido serves no request, and it reports the last databank. -/
theorem handle_runs (request : ObsidoRequest) (node : Application) :
    Runs (ObsidoHandler.handle formats request) [] node := by
  unfold ObsidoHandler.handle
  cases ObsidoMethod.fromI32 request.method with
  | none => exact .return
  | some method =>
      cases method with
      | fetchWLast =>
          apply Runs.read
          have drawn : Ran [] node { node with drawn := node.drawn + 1 } :=
            ⟨rfl, fun _ => .inl⟩
          change Runs _ ([] ++ []) node
          refine Runs.bind (.update drawn) fun after ran => ?_
          apply Runs.read
          apply respondToContacts_runs
          have same : after.databanks = node.databanks := ran.databanks
          rw [same]
          exact ⟨rfl, rfl⟩
      | clientRegister =>
          cases request.registerInfo with
          | none => exact .return
          | some info => exact .update ⟨rfl, fun _ => .inl⟩

end

end Application

section

variable [Crypto]

namespace Formats

variable (formats : Formats)

/-- The transactions that any value with the digest, be it a batch or a block, decodes to. -/
def Content (digest : Digest) (transactions : List (List UInt8)) : Prop :=
  (∀ bytes, sha512 (.batch bytes) = digest →
      MempoolMessage.transactions (formats.decodeMessage bytes) = transactions) ∧
    ∀ block : Block, block.digest = digest →
      MempoolMessage.transactions (formats.decodeMessage (formats.serializeBlock block)) =
        transactions

/-- All values with the digest decode to the same transactions. -/
def Unambiguous (digest : Digest) : Prop := ∃ transactions, formats.Content digest transactions

/-- The digest of a batch determines its transactions. -/
theorem unambiguous_batch (collisionFree : CollisionFree) (bytes : List UInt8) :
    formats.Unambiguous (sha512 (.batch bytes)) :=
  ⟨_, fun _ same => by rw [collisionFree.batch_digest same], fun block same =>
    absurd same (collisionFree.block_ne_batch block bytes)⟩

open Classical in
/-- The transactions of an unambiguous digest. -/
noncomputable def content (digest : Digest) : List (List UInt8) :=
  if unambiguous : formats.Unambiguous digest then unambiguous.choose else []

/-- The requests behind the digests, in order. -/
noncomputable def log (digests : List Digest) : List ClientRequest :=
  formats.requests (digests.flatMap formats.content)

variable {formats}

/-- The content of an unambiguous digest is the one that its values decode to. -/
theorem content_spec {digest : Digest} (unambiguous : formats.Unambiguous digest) :
    formats.Content digest (formats.content digest) := by
  unfold content
  rw [dif_pos unambiguous]
  exact unambiguous.choose_spec

/-- The log of two lists of digests is one log after the other. -/
theorem log_append (first second : List Digest) :
    formats.log (first ++ second) = formats.log first ++ formats.log second := by
  unfold log
  rw [List.flatMap_append, requests_append]

/-- More digests make a longer log. -/
theorem log_mono (formats : Formats) {first second : List Digest} (grows : first <+: second) :
    formats.log first <+: formats.log second := by
  obtain ⟨more, rfl⟩ := grows
  rw [log_append]
  exact List.prefix_append _ _

/-- A stored value decodes to the transactions of its digest. -/
theorem stored_content {core : Core} (stocked : core.Stocked) {digest : Digest} {value : Value}
    (unambiguous : formats.Unambiguous digest) (found : core.store.read digest = some value) :
    MempoolMessage.transactions (formats.decodeMessage (formats.bytes value)) =
      formats.content digest := by
  have content := content_spec unambiguous
  have kept := stocked.entries digest value (Store.mem_of_read found)
  cases kept with
  | batch bytes => exact content.1 bytes rfl
  | block block => exact content.2 block rfl

end Formats

/-- The payload digests of the delivered blocks, in order. -/
def Core.payloads (core : Core) : List Digest := core.txCommit.flatMap Block.payload

/-- Blocks with one list of digests have one list of payload digests. -/
theorem CollisionFree.payloads_prefix (collisionFree : CollisionFree) {first second : List Block}
    (grows : first.map Block.digest <+: second.map Block.digest) :
    first.flatMap Block.payload <+: second.flatMap Block.payload := by
  induction first generalizing second with
  | nil => exact List.nil_prefix
  | cons block rest ih =>
      cases second with
      | nil => exact absurd (List.prefix_nil.mp grows) (List.cons_ne_nil _ _)
      | cons other others =>
          rw [List.map_cons, List.map_cons, List.cons_prefix_cons] at grows
          have same := (collisionFree.block_digest grows.1).2.2.1
          rw [List.flatMap_cons, List.flatMap_cons, same]
          exact (List.prefix_append_right_inj _).mpr (ih grows.2)

/-- Genesis has no payload, so the ledger has all of it. -/
theorem CollisionFree.payloads_ledger (collisionFree : CollisionFree) (core : Core) :
    core.payloads = core.ledger.flatMap Block.payload := by
  unfold Core.payloads Core.ledger
  induction core.txCommit with
  | nil => rfl
  | cons block rest ih =>
      rw [List.flatMap_cons, List.filter_cons, ih]
      split
      · rw [List.flatMap_cons]
      · rename_i isGenesis
        have same : block.digest = Block.genesis.digest := by simpa using isGenesis
        have empty : block.payload = [] := (collisionFree.block_digest same).2.2.1
        rw [empty, List.nil_append]

/-- What a node delivered stays delivered. -/
theorem Node.Turn.delivers {setup : Setup} {name : PublicKey} {node after : Node} {event : Event}
    (turn : Node.Turn setup name node event after) (sound : node.Sound) :
    node.core.txCommit <+: after.core.txCommit := by
  refine turn.core_preserve (fun core => node.core.txCommit <+: core.txCommit) sound
    (Node.permits_unrestricted node event) List.prefix_rfl ?_ ?_
  · intro core after step grown
    rcases step.commit_cases with ⟨same, _⟩ | ⟨_, _, _, _, _, _, _, delivers⟩
    · rw [same]
      exact grown
    · rw [delivers]
      exact grown.trans (List.prefix_append _ _)
  · intro core after fault grown
    rw [fault.same]
    exact grown

/-- The payload digests that the replica took from the commit channel. -/
def Replica.taken (replica : Replica) (core : Core) : List Digest :=
  (core.txCommit.take replica.received).flatMap Block.payload

/-- The replica served the requests that its node delivered, in order and none twice, up to the
batch that it executes next. -/
structure Replica.Follows (formats : Formats) (quorum : Nat) (core : Core) (replica : Replica) :
    Prop where
  received : replica.received ≤ core.txCommit.length
  behind : ∃ served, served <+: formats.log (replica.taken core) ∧
    Application.Ran served (boot quorum).application replica.application
  current : replica.halted = false → ∃ digests, digests ++ replica.payload = replica.taken core ∧
    Application.Ran (formats.log digests) (boot quorum).application replica.application

namespace Replica

variable {formats : Formats} {quorum : Nat} {core : Core} {replica : Replica}

/-- The digests taken are the first of the payloads. -/
theorem taken_prefix (replica : Replica) (core : Core) : replica.taken core <+: core.payloads := by
  unfold taken Core.payloads
  rw [← List.take_append_drop replica.received core.txCommit, List.flatMap_append]
  simp

/-- A replica that boots has served nothing. -/
theorem boot_follows : (boot quorum).Follows formats quorum core where
  received := Nat.zero_le _
  behind := ⟨[], List.nil_prefix, .refl _⟩
  current _ := ⟨[], rfl, .refl _⟩

/-- What the node delivers later leaves the taken blocks as they are. -/
theorem Follows.deliver {after : Core} (follows : replica.Follows formats quorum core)
    (delivers : core.txCommit <+: after.txCommit) : replica.Follows formats quorum after := by
  have same : replica.taken after = replica.taken core := by
    obtain ⟨more, grows⟩ := delivers
    unfold taken
    rw [← grows, List.take_append_of_le_length follows.received]
  refine ⟨follows.received.trans delivers.length_le, ?_, ?_⟩
  · rw [same]
    exact follows.behind
  · rw [same]
    exact follows.current

/-- The obsido changes only what the log does not reach. -/
theorem Follows.idle {application : Application} {obsidoHalted : Bool}
    (follows : replica.Follows formats quorum core)
    (idle : Application.Ran [] replica.application application) :
    Follows formats quorum core
      { replica with application := application, obsidoHalted := obsidoHalted } := by
  have extended {requests : List ClientRequest}
      (ran : Application.Ran requests (boot quorum).application replica.application) :
      Application.Ran requests (boot quorum).application application := by
    have whole := ran.trans idle
    rwa [List.append_nil] at whole
  refine ⟨follows.received, ?_, fun running => ?_⟩
  · obtain ⟨requests, behind, ran⟩ := follows.behind
    exact ⟨requests, behind, extended ran⟩
  · obtain ⟨digests, rest, ran⟩ := follows.current running
    exact ⟨digests, rest, extended ran⟩

/-- An answer to the obsido leaves what the replica follows. -/
theorem Follows.serve {request : ObsidoRequest} {after : Replica}
    (follows : replica.Follows formats quorum core)
    (serves : replica.serve formats request = some after) :
    after.Follows formats quorum core := by
  have runs : Application.Runs (ObsidoHandler.handle formats request) [] replica.application :=
    Application.handle_runs request replica.application
  obtain ⟨served, isServed, idle⟩ := runs.served
  cases List.prefix_nil.mp isServed
  unfold Replica.serve at serves
  split at serves
  · cases serves
  · split at serves <;> rename_i outcome <;> cases serves <;> rw [outcome] at idle <;>
      exact follows.idle idle

/-- The replica takes the next block when it executed the last one. -/
theorem Follows.take {block : Block} (follows : replica.Follows formats quorum core)
    (running : replica.halted = false) (idle : replica.payload = [])
    (next : core.txCommit[replica.received]? = some block) :
    Follows formats quorum core
      { replica with payload := block.payload, received := replica.received + 1 } := by
  obtain ⟨digests, rest, ran⟩ := follows.current running
  obtain ⟨inside, isBlock⟩ := List.getElem?_eq_some_iff.mp next
  rw [idle, List.append_nil] at rest
  have taken : (core.txCommit.take (replica.received + 1)).flatMap Block.payload =
      digests ++ block.payload := by
    rw [List.take_succ_eq_append_getElem inside, List.flatMap_append, isBlock, rest]
    simp [Replica.taken]
  refine ⟨inside, ⟨formats.log digests, ?_, ran⟩, fun _ => ⟨digests, taken.symm, ran⟩⟩
  apply formats.log_mono
  exact ⟨block.payload, taken.symm⟩

/-- The replica executes the next batch of the block in hand. -/
theorem Follows.analyze {after : Replica} (follows : replica.Follows formats quorum core)
    (stocked : core.Stocked)
    (unambiguous : ∀ digest ∈ core.payloads, formats.Unambiguous digest)
    (analyzes : replica.analyze formats core = some after) :
    after.Follows formats quorum core := by
  unfold Replica.analyze at analyzes
  split at analyzes
  · cases analyzes
  · rename_i running
    rw [Bool.not_eq_true] at running
    split at analyzes
    · rename_i idle
      obtain ⟨block, next, rfl⟩ := Option.map_eq_some_iff.mp analyzes
      exact follows.take running idle next
    · rename_i digest rest inHand
      split at analyzes
      · cases analyzes
        exact ⟨follows.received, follows.behind, nofun⟩
      · rename_i value found
        obtain ⟨digests, split, ran⟩ := follows.current running
        rw [inHand] at split
        have delivered : digest ∈ core.payloads := by
          apply (replica.taken_prefix core).subset
          rw [← split]
          exact List.mem_append_right _ List.mem_cons_self
        have content := Formats.stored_content stocked (unambiguous digest delivered) found
        have runs := @Application.analyzeMessage_runs _ formats
          (formats.decodeMessage (formats.bytes value)) replica.application
        have logged : formats.log [digest] = formats.requests (formats.content digest) := by
          simp [Formats.log]
        rw [content, ← logged] at runs
        have taken : (digests ++ [digest]) ++ rest = replica.taken core := by
          rw [← split, List.append_assoc, List.singleton_append]
        have behind {served : List ClientRequest} (isServed : served <+: formats.log [digest]) :
            formats.log digests ++ served <+: formats.log (replica.taken core) := by
          rw [← taken, Formats.log_append, Formats.log_append, List.append_assoc]
          exact (List.prefix_append_right_inj _).mpr (isServed.trans (List.prefix_append _ _))
        split at analyzes
        · rename_i outcome
          cases analyzes
          rcases runs with ⟨_, _, executed⟩ | ⟨fails, _⟩
          · rw [outcome] at executed
            have whole := ran.trans executed
            refine ⟨follows.received, ⟨_, behind List.prefix_rfl, whole⟩, fun _ => ?_⟩
            refine ⟨digests ++ [digest], taken, ?_⟩
            rw [Formats.log_append]
            exact whole
          · rw [outcome] at fails
            exact absurd rfl (fails ())
        · rename_i outcome
          cases analyzes
          obtain ⟨served, isServed, executed⟩ := runs.served
          rw [outcome] at executed
          exact ⟨follows.received, ⟨_, behind isServed, ran.trans executed⟩, nofun⟩

end Replica

namespace Deployment

variable {system : System} {formats : Formats} {quorum : PublicKey → Nat} {deployment : Deployment}

/-- The applications take no part in the turns of the nodes. -/
theorem turns_of_run {meets : (PublicKey → Node) → PublicKey × Event → Prop}
    {events : List DeploymentEvent}
    (run : (machine system formats quorum).Run (fun deployment event =>
      ∀ turn, event = .turn turn → meets deployment.nodes turn) events deployment) :
    ∃ turns, system.machine.Run meets turns deployment.nodes := by
  refine run.project Deployment.nodes rfl ?_
  intro before event after allowed steps
  cases event with
  | turn turn =>
      change (if _ then _ else _) = _ at steps
      split at steps
      · cases steps
      · obtain ⟨nodes, taken, rfl⟩ := Option.map_eq_some_iff.mp steps
        exact .inr ⟨turn, allowed turn rfl, taken⟩
  | analyze name =>
      obtain ⟨replica, _, rfl⟩ := Option.map_eq_some_iff.mp steps
      exact .inl rfl
  | obsido name request =>
      obtain ⟨replica, _, rfl⟩ := Option.map_eq_some_iff.mp steps
      exact .inl rfl

/-- The nodes of a reachable deployment are reachable by themselves. -/
theorem reachable_nodes (reachable : (machine system formats quorum).Reachable deployment) :
    system.machine.Reachable deployment.nodes := by
  obtain ⟨events, run⟩ := reachable
  exact turns_of_run (run.weaken fun _ _ _ _ _ => trivial)

/-- A turn of a node leaves the replicas alone, and each node delivers at least what it did. -/
theorem follows_turn {after : Deployment} {turn : PublicKey × Event}
    (reachable : (machine system formats quorum).Reachable deployment)
    (steps : (machine system formats quorum).step deployment (.turn turn) = some after)
    (name : PublicKey) : after.replicas = deployment.replicas ∧
      (deployment.nodes name).core.txCommit <+: (after.nodes name).core.txCommit := by
  change (if _ then _ else _) = _ at steps
  split at steps
  · cases steps
  · obtain ⟨nodes, taken, rfl⟩ := Option.map_eq_some_iff.mp steps
    refine ⟨rfl, ?_⟩
    have turned := System.step_turned taken
    by_cases same : name = turn.1
    · subst same
      have sound := Node.reachable_sound (System.reachable_node (reachable_nodes reachable) turn.1)
      exact (Node.step_turn turned.steps).delivers sound
    · change _ <+: (nodes name).core.txCommit
      rw [turned.others name same]

/-- Every replica follows its node. -/
theorem reachable_follows (reachable : (machine system formats quorum).Reachable deployment)
    (name : PublicKey)
    (unambiguous : ∀ digest ∈ (deployment.nodes name).core.payloads, formats.Unambiguous digest) :
    (deployment.replicas name).Follows formats (quorum name) (deployment.nodes name).core := by
  refine reachable.invariant (fun deployment => ∀ name,
    (∀ digest ∈ (deployment.nodes name).core.payloads, formats.Unambiguous digest) →
      (deployment.replicas name).Follows formats (quorum name) (deployment.nodes name).core)
    (fun name _ => Replica.boot_follows) ?_ name unambiguous
  intro before event after reached follows steps name unambiguous
  cases event with
  | turn turn =>
      obtain ⟨same, delivers⟩ := follows_turn reached steps name
      rw [same]
      refine (follows name fun digest inside => unambiguous digest ?_).deliver delivers
      obtain ⟨more, grows⟩ := delivers
      unfold Core.payloads
      rw [← grows, List.flatMap_append]
      exact List.mem_append_left _ inside
  | analyze other =>
      obtain ⟨replica, analyzes, rfl⟩ := Option.map_eq_some_iff.mp steps
      by_cases same : name = other
      · subst same
        have stocked := (System.reachable_regular (reachable_nodes reached) name).stocked
        change (Function.update before.replicas name replica name).Follows _ _ _
        rw [Function.update_self]
        exact (follows name unambiguous).analyze stocked unambiguous analyzes
      · change (Function.update before.replicas other replica name).Follows _ _ _
        rw [Function.update_of_ne same]
        exact follows name unambiguous
  | obsido other request =>
      obtain ⟨replica, serves, rfl⟩ := Option.map_eq_some_iff.mp steps
      by_cases same : name = other
      · subst same
        change (Function.update before.replicas name replica name).Follows _ _ _
        rw [Function.update_self]
        exact (follows name unambiguous).serve serves
      · change (Function.update before.replicas other replica name).Follows _ _ _
        rw [Function.update_of_ne same]
        exact follows name unambiguous

/-- Of the requests that two nodes delivered, those of one are a first part of those of the other,
while each commit leaves no gap to the last one and finds at most one new ancestor. -/
theorem logs_agree (collisionFree : CollisionFree)
    (few : 3 * system.faultyStake < system.setup.committee.totalVotes)
    (small : 2 * system.setup.committee.totalVotes < 2 ^ 32) {events : List DeploymentEvent}
    (run : (machine system formats quorum).Run (fun deployment event =>
      ∀ turn, event = .turn turn → (deployment.nodes turn.1).CommitsMeet system.setup
        (Core.Aligned system.setup) turn.2) events deployment) (first second : PublicKey) :
    formats.log (deployment.nodes first).core.payloads <+:
        formats.log (deployment.nodes second).core.payloads ∨
      formats.log (deployment.nodes second).core.payloads <+:
        formats.log (deployment.nodes first).core.payloads := by
  obtain ⟨turns, taken⟩ : ∃ turns, system.machine.Run (fun nodes turn =>
      (nodes turn.1).CommitsMeet system.setup (Core.Aligned system.setup) turn.2) turns
        deployment.nodes := turns_of_run run
  have ordered := System.run_ordered collisionFree few small taken
  have safe : System.Safe system deployment.nodes := ⟨collisionFree, few, small, taken.reachable⟩
  simp only [collisionFree.payloads_ledger]
  apply (safe.ledgers_agree (ordered first) (ordered second)).imp
  · exact fun grows => formats.log_mono (collisionFree.payloads_prefix grows)
  · exact fun grows => formats.log_mono (collisionFree.payloads_prefix grows)

end Deployment

/-- Each message that the replica sent accounts for a first part of the requests that its node
delivered. -/
theorem Replica.Follows.accounts {formats : Formats} {quorum : Nat} {core : Core}
    {replica : Replica} (follows : replica.Follows formats quorum core)
    {sent : IpAddr × UInt16 × ClientMessage} (inside : sent ∈ replica.application.network) :
    ∃ requests, requests <+: formats.log core.payloads ∧
      Application.Accounts sent.2.2 (Databanks.new quorum) requests := by
  obtain ⟨requests, isPrefix, ran⟩ := follows.behind
  rcases ran.accounts sent inside with atBoot | ⟨earlier, isEarlier, accounts⟩
  · exact absurd atBoot List.not_mem_nil
  · have within := isPrefix.trans (formats.log_mono (replica.taken_prefix core))
    exact ⟨earlier, isEarlier.trans within, accounts⟩

/-- The replica served a first part of the requests that its node delivered, and each weights
response that it sent reports the databanks after a first part of them. -/
theorem Replica.Follows.executes {formats : Formats} {quorum : Nat} {core : Core}
    {replica : Replica} (follows : replica.Follows formats quorum core) :
    (∃ requests, requests <+: formats.log core.payloads ∧
        replica.application.databanks = (Databanks.new quorum).served requests) ∧
      ∀ weights ∈ replica.application.weightsSent, ∃ requests,
        requests <+: formats.log core.payloads ∧
          weights.Reports ((Databanks.new quorum).served requests) := by
  have within := formats.log_mono (replica.taken_prefix core)
  obtain ⟨requests, isPrefix, ran⟩ := follows.behind
  refine ⟨⟨requests, isPrefix.trans within, ran.databanks⟩, fun weights sent => ?_⟩
  obtain ⟨ip, port, inside⟩ := Application.mem_weightsSent sent
  obtain ⟨served, isServed, accounts⟩ := follows.accounts inside
  rcases accounts with ⟨other, same, reports⟩ | ⟨response, isResponse, _⟩
  · cases same
    exact ⟨served, isServed, reports⟩
  · cases isResponse

/-- Every replica is the state machine of the databanks run on a first part of the requests that
its node delivered, on all of them when it runs and has nothing left to execute. -/
theorem replica_executes (system : System) (formats : Formats) (quorum : PublicKey → Nat)
    (deployment : Deployment)
    (reachable : (Deployment.machine system formats quorum).Reachable deployment) (name : PublicKey)
    (unambiguous : ∀ digest ∈ (deployment.nodes name).core.payloads, formats.Unambiguous digest) :
    (∃ requests, requests <+: formats.log (deployment.nodes name).core.payloads ∧
        (deployment.replicas name).application.databanks =
          (Databanks.new (quorum name)).served requests) ∧
      (∀ weights ∈ (deployment.replicas name).application.weightsSent, ∃ requests,
        requests <+: formats.log (deployment.nodes name).core.payloads ∧
          weights.Reports ((Databanks.new (quorum name)).served requests)) ∧
      ((deployment.replicas name).halted = false → (deployment.replicas name).payload = [] →
        (deployment.replicas name).received = (deployment.nodes name).core.txCommit.length →
          (deployment.replicas name).application.databanks = (Databanks.new (quorum name)).served
            (formats.log (deployment.nodes name).core.payloads)) := by
  have follows := Deployment.reachable_follows reachable name unambiguous
  obtain ⟨executes, reports⟩ := follows.executes
  refine ⟨executes, reports, fun running idle caughtUp => ?_⟩
  obtain ⟨digests, rest, ran⟩ := follows.current running
  have whole : (deployment.replicas name).taken (deployment.nodes name).core =
      (deployment.nodes name).core.payloads := by
    unfold Replica.taken Core.payloads
    rw [caughtUp, List.take_length]
  rw [idle, List.append_nil, whole] at rest
  rw [← rest]
  exact ran.databanks

/-- Two replicas of one quorum size never send different weights for one epoch, while the rounds fit
`u64` and each commit leaves no gap to the last one and finds at most one new ancestor. -/
theorem replicas_agree (collisionFree : CollisionFree) (system : System)
    (few : 3 * system.faultyStake < system.setup.committee.totalVotes)
    (small : 2 * system.setup.committee.totalVotes < 2 ^ 32) (formats : Formats)
    (quorum : PublicKey → Nat) (events : List DeploymentEvent) (deployment : Deployment)
    (run : (Deployment.machine64 system formats quorum).Run (fun deployment event =>
      deployment.roundsFit system event = true ∧
        ∀ turn, event = .turn turn → (deployment.nodes turn.1).CommitsMeet system.setup
          (Core.Aligned system.setup) turn.2) events deployment)
    (first second : PublicKey) (same : quorum first = quorum second)
    (unambiguous : ∀ name ∈ [first, second], ∀ digest ∈ (deployment.nodes name).core.payloads,
      formats.Unambiguous digest)
    (weights weights' : WeightsResponse)
    (sent : weights ∈ (deployment.replicas first).application.weightsSent)
    (sent' : weights' ∈ (deployment.replicas second).application.weightsSent)
    (sameEpoch : weights.rLastEpochId = weights'.rLastEpochId) :
    weights.wLast = weights'.wLast := by
  have unbounded := (Deployment.run64 fun _ _ => And.left).mp run
  have executes (name : PublicKey) (named : name ∈ [first, second]) :=
    (Deployment.reachable_follows unbounded.reachable name (unambiguous name named)).executes.2
  obtain ⟨requests, isPrefix, reports⟩ := executes first List.mem_cons_self weights sent
  obtain ⟨requests', isPrefix', reports'⟩ :=
    executes second (List.mem_cons_of_mem _ List.mem_cons_self) weights' sent'
  rw [← same] at reports'
  have logs := Deployment.logs_agree collisionFree few small
    (unbounded.weaken fun _ _ => And.right) first second
  have linked := Databanks.new_linked (quorum first)
  exact Databanks.reports_agree_of_logs linked reports reports' isPrefix isPrefix' logs sameEpoch

end

namespace Plain

/-- The formats read the only transaction of a batch as a vote for the first epoch. -/
def votingFormats : Formats :=
  { formats with
    decodeRequest := fun bytes => if bytes = [] then some ⟨1, "", "", 0, none⟩ else none }

def paidFirst : Block := Block.new .genesis none (1 : Nat) 1 [hash (.batch emptyRequest)] (sign 1)
def paidSecond : Block := propose (certify paidFirst) none 2 2
def paidThird : Block := propose (certify paidSecond) none 3 3

def register : ObsidoRequest := ⟨1, "", "", some ⟨"127.0.0.1", 9000, "127.0.0.1", 9001⟩⟩
def fetch : ObsidoRequest := ⟨0, "", "", none⟩

/-- Two members commit and execute the block whose batch closes the first epoch. One sends its
weights to its client at once, the other one on a fetch. -/
def votingRun : List DeploymentEvent :=
  [((1 : Nat), Event.batch emptyRequest), ((1 : Nat), .digest 0), ((2 : Nat), .batch emptyRequest),
    ((1 : Nat), .proposer [hash (.batch emptyRequest)]), ((1 : Nat), .loopback),
    ((2 : Nat), .message (.propose paidFirst)),
    ((2 : Nat), .message (.vote (voteFor paidFirst 1))),
    ((2 : Nat), .message (.vote (voteFor paidFirst 3))),
    ((2 : Nat), .proposer []), ((2 : Nat), .proposer []),
    ((1 : Nat), .message (.propose paidSecond)), ((2 : Nat), .message (.propose paidSecond)),
    ((1 : Nat), .message (.propose paidThird)),
    ((2 : Nat), .message (.propose paidThird))].map DeploymentEvent.turn ++
  [.obsido (1 : Nat) register, .analyze (1 : Nat), .analyze (1 : Nat),
    .analyze (2 : Nat), .analyze (2 : Nat), .obsido (2 : Nat) register, .obsido (2 : Nat) fetch]

def voting : Machine Deployment DeploymentEvent := Deployment.machine four votingFormats fun _ => 1

/-- The turns that are commits are aligned ones. -/
def turnsPass (deployment : Deployment) : DeploymentEvent → Bool
  | .turn turn => (deployment.nodes turn.1).commitsPass four.setup commitsAligned turn.2
  | _ => true

/-- The computed check of a turn implies its condition. -/
theorem turnsPass_sound (deployment : Deployment) (event : DeploymentEvent)
    (passes : turnsPass deployment event = true) (turn : PublicKey × Event)
    (isTurn : event = .turn turn) :
    (deployment.nodes turn.1).CommitsMeet four.setup (Core.Aligned four.setup) turn.2 := by
  subst isTurn
  exact Node.commitsMeet_of_pass commitsAligned_sound passes

/-- Both members of the run execute the request and send one response. -/
theorem votingRun_executes : (voting.execute voting.initial votingRun).map (fun deployment =>
    [1, 2].map fun (name : Nat) => ((deployment.nodes name).core.payloads,
      (deployment.replicas name).application.weightsSent.map WeightsResponse.rLastEpochId)) =
    some [([hash (.batch emptyRequest)], [0]), ([hash (.batch emptyRequest)], [0])] := by
  decide +kernel

/-- The one digest of the run is unambiguous. -/
theorem votingRun_unambiguous (digest : List Nat) (inside : digest ∈ [hash (.batch emptyRequest)]) :
    votingFormats.Unambiguous digest := by
  cases List.mem_singleton.mp inside
  exact Formats.unambiguous_batch votingFormats collisionFree emptyRequest

/-- Both members of the run sent the same model. -/
theorem replicas_agree_votingRun : ∃ (deployment : Deployment) (weights weights' : WeightsResponse),
    voting.execute voting.initial votingRun = some deployment ∧
    (deployment.replicas (1 : Nat)).application.weightsSent = [weights] ∧
      (deployment.replicas (2 : Nat)).application.weightsSent = [weights'] ∧
      weights.wLast = weights'.wLast := by
  obtain ⟨deployment, executed, observed⟩ := Option.map_eq_some_iff.mp votingRun_executes
  simp only [List.map_cons, List.map_nil, List.cons.injEq, Prod.mk.injEq, and_true,
    List.map_eq_singleton_iff] at observed
  obtain ⟨⟨payloads, weights, sent, epoch⟩, payloads', weights', sent', epoch'⟩ := observed
  have passes : voting.Run (fun deployment event =>
      (deployment.roundsFit four event && turnsPass deployment event) = true) votingRun deployment :=
    .of_execute (by decide +kernel) executed
  have run := (Deployment.run64 fun _ _ => And.left).mpr
    (passes.weaken fun deployment event allowed =>
      (Bool.and_eq_true _ _ ▸ allowed).imp_right (turnsPass_sound deployment event))
  refine ⟨deployment, weights, weights', executed, sent, sent', ?_⟩
  refine replicas_agree collisionFree four (by decide) (by decide) votingFormats (fun _ => 1)
    votingRun deployment run (1 : Nat) (2 : Nat) rfl ?_ weights weights'
    (by rw [sent]; exact List.mem_cons_self) (by rw [sent']; exact List.mem_cons_self)
    (epoch.trans epoch'.symm)
  intro name named
  rcases List.mem_cons.mp named with rfl | named
  · rw [payloads]
    exact votingRun_unambiguous
  · cases List.mem_singleton.mp named
    rw [payloads']
    exact votingRun_unambiguous

/-- The first member of the run served requests of its log. -/
theorem replica_executes_votingRun : ∃ deployment : Deployment,
    voting.execute voting.initial votingRun = some deployment ∧ ∃ requests,
    requests <+: votingFormats.log (deployment.nodes (1 : Nat)).core.payloads ∧
      (deployment.replicas (1 : Nat)).application.databanks =
        (Databanks.new 1).served requests := by
  obtain ⟨deployment, executed, observed⟩ := Option.map_eq_some_iff.mp votingRun_executes
  simp only [List.map_cons, List.map_nil, List.cons.injEq, Prod.mk.injEq, and_true] at observed
  refine ⟨deployment, executed, (replica_executes four votingFormats (fun _ => 1) deployment
    (.execute executed) (1 : Nat) ?_).1⟩
  rw [observed.1.1]
  exact votingRun_unambiguous

end Plain

end DeflHotstuff
